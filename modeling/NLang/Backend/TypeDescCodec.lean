import NLang.Backend.TypeDesc
import NLang.Library.Outcomes
import NLang.Vm.ObjectStream

/-!
# The wire form of type descriptors

`AppendTypeDescBytes` and `ParseTypeDescBytes` (`TypeDesc.cpp`). The parser reads a buffer at positions: a read outside
of the buffer and a call beyond the given number of nested ones are outcomes of their own.
-/

namespace NLang.Backend
open NLang.Library NLang.Library.Words NLang.Vm

def kindByte : Option Rtk → UInt8
  | some kind => ObjectStream.kindCode kind
  | none => 0xFB

def joinAll : List (Option Bytes) → Option Bytes
  | [] => some []
  | part :: parts => do some ((← part) ++ (← joinAll parts))

mutual

def appendTypeDescBytes : TypeDesc → Option Bytes
  | .mk kind typeIdx rank elems =>
    let nested := appendEach elems
    match kind with
    | some .struct | some .cls => some (kindByte kind :: putWord 2 typeIdx)
    | some .array => do some (kindByte kind :: ((← nested.head?.join) ++ [UInt8.ofNat rank]))
    | some .list => do some (kindByte kind :: (← nested.head?.join))
    | some .dict => do
        let key ← nested.head?.join
        let value ← nested[1]?.join
        some (kindByte kind :: (key ++ value))
    | some .func =>
      if elems = [] then none
      else do some (kindByte kind :: UInt8.ofNat (elems.length - 1) :: (← joinAll nested))
    | _ => some [kindByte kind]

def appendEach : List TypeDesc → List (Option Bytes)
  | [] => []
  | elem :: elems => appendTypeDescBytes elem :: appendEach elems

end

inductive ParseFault where
  | truncated | unknownKind | tooDeep | rankOutOfRange | trailingBytes
  | overrun
  | outOfCalls

def ParseFault.thrown : ParseFault → Bool
  | .overrun | .outOfCalls => false
  | _ => true

def wireKinds : List (Option Rtk) :=
  [some .struct, some .cls, some .array, some .list, some .dict, some .func, some .string, some .boxed, some .typeParam,
    some .void, none, some .int32, some .float, some .byte, some .ubyte, some .short, some .ushort, some .uint32,
    some .long, some .ulong, some .double, some .bool, some .char]

section Parse
variable (data : Bytes)

def readByte (pos : Nat) : Except ParseFault UInt8 :=
  match data[pos]? with
  | some byte => .ok byte
  | none => .error .overrun

def nextByte (pos : Nat) : Except ParseFault UInt8 :=
  if data.length ≤ pos then .error .truncated else readByte data pos

def sizeLeft (pos : Nat) : Nat :=
  if pos ≤ data.length then data.length - pos else 2 ^ 64 - (pos - data.length)

def parseTypeIndex (pos : Nat) : Except ParseFault (Nat × Nat) :=
  if sizeLeft data pos < 2 then .error .truncated
  else do
    let low ← readByte data pos
    let high ← readByte data (pos + 1)
    .ok (wordOf [low, high], pos + 2)

section Nested
variable (parse : Nat → Except ParseFault (TypeDesc × Nat))

def parseMany : Nat → Nat → Except ParseFault (List TypeDesc × Nat)
  | 0, pos => .ok ([], pos)
  | count + 1, pos => do
      let (first, pos) ← parse pos
      let (others, pos) ← parseMany count pos
      .ok (first :: others, pos)

def parseFuncElems (pos : Nat) : Except ParseFault (List TypeDesc × Nat) := do
  let paramCount ← nextByte data pos
  parseMany parse (paramCount.toNat + 1) (pos + 1)

def parseArrayBody (pos : Nat) : Except ParseFault (TypeDesc × Nat × Nat) := do
  let (elem, pos) ← parse pos
  let rank ← nextByte data pos
  if kMaxArrayRank < rank.toNat then .error .rankOutOfRange else .ok (elem, rank.toNat, pos + 1)

def parseBody (pos : Nat) : Option Rtk → Except ParseFault (TypeDesc × Nat)
  | some .struct => do
      let (typeIdx, pos) ← parseTypeIndex data pos
      .ok (.indexed .struct typeIdx, pos)
  | some .cls => do
      let (typeIdx, pos) ← parseTypeIndex data pos
      .ok (.indexed .cls typeIdx, pos)
  | some .array => do
      let (elem, rank, pos) ← parseArrayBody data parse pos
      .ok (.array rank elem, pos)
  | some .list => do
      let (elem, pos) ← parse pos
      .ok (.nested .list [elem], pos)
  | some .dict => do
      let (key, pos) ← parse pos
      let (value, pos) ← parse pos
      .ok (.nested .dict [key, value], pos)
  | some .func => do
      let (elems, pos) ← parseFuncElems data parse pos
      .ok (.nested .func elems, pos)
  | kind => .ok (.mk kind 0xFFFF 1 [], pos)

end Nested

def parseOne : Nat → Nat → Nat → Except ParseFault (TypeDesc × Nat)
  | 0, _, _ => .error .outOfCalls
  | calls + 1, depth, pos =>
    if kMaxTypeDescDepth < depth then .error .tooDeep
    else do
      let byte ← nextByte data pos
      match wireKinds.find? (kindByte · = byte) with
      | none => .error .unknownKind
      | some kind => parseBody data (parseOne calls (depth + 1)) (pos + 1) kind

def parseTypeDescBytes : Except ParseFault TypeDesc := do
  let (desc, pos) ← parseOne data (kMaxTypeDescDepth + 2) 0 0
  if pos ≠ data.length then .error .trailingBytes else .ok desc

end Parse

def isLeafKind (kind : Option Rtk) : Bool :=
  kind ∈ wireKinds ∧ kind ∉ [some .struct, some .cls, some .array, some .list, some .dict, some .func]

inductive Fits : TypeDesc → Nat → Prop where
  | leaf {kind : Option Rtk} {depth : Nat} (level : depth ≤ kMaxTypeDescDepth) (isLeaf : isLeafKind kind = true) :
      Fits (.mk kind 0xFFFF 1 []) depth
  | named {kind : Rtk} {typeIdx depth : Nat} (level : depth ≤ kMaxTypeDescDepth) (isNamed : kind = .struct ∨ kind = .cls)
      (small : typeIdx < 2 ^ 16) : Fits (.indexed kind typeIdx) depth
  | array {rank depth : Nat} {elem : TypeDesc} (level : depth ≤ kMaxTypeDescDepth) (capped : rank ≤ kMaxArrayRank)
      (nested : Fits elem (depth + 1)) : Fits (.array rank elem) depth
  | list {depth : Nat} {elem : TypeDesc} (level : depth ≤ kMaxTypeDescDepth) (nested : Fits elem (depth + 1)) :
      Fits (.nested .list [elem]) depth
  | dict {depth : Nat} {key value : TypeDesc} (level : depth ≤ kMaxTypeDescDepth) (first : Fits key (depth + 1))
      (second : Fits value (depth + 1)) : Fits (.nested .dict [key, value]) depth
  | func {depth : Nat} {elems : List TypeDesc} (level : depth ≤ kMaxTypeDescDepth) (count : elems.length - 1 < 2 ^ 8)
      (some_elem : elems ≠ []) (nested : ∀ elem ∈ elems, Fits elem (depth + 1)) : Fits (.nested .func elems) depth

theorem wireKinds_find {kind : Option Rtk} (known : kind ∈ wireKinds) :
    wireKinds.find? (kindByte · = kindByte kind) = some kind := by
  have all : ∀ kind ∈ wireKinds, wireKinds.find? (kindByte · = kindByte kind) = some kind := by decide
  exact all kind known

theorem appendEach_eq (elems : List TypeDesc) : appendEach elems = elems.map appendTypeDescBytes := by
  induction elems with
  | nil => rfl
  | cons elem elems ih => rw [appendEach, ih, List.map_cons]

section Append
variable {bytes : Bytes} {elem key value : TypeDesc} {elems : List TypeDesc} {rank : Nat}

theorem append_array : appendTypeDescBytes (.array rank elem) = some bytes ↔ ∃ inner,
    appendTypeDescBytes elem = some inner ∧ kindByte (some .array) :: (inner ++ [UInt8.ofNat rank]) = bytes := by
  rw [TypeDesc.array, appendTypeDescBytes, appendEach_eq]
  exact Option.bind_eq_some_iff.trans (by simp)

theorem append_list : appendTypeDescBytes (.nested .list [elem]) = some bytes ↔ ∃ inner,
    appendTypeDescBytes elem = some inner ∧ kindByte (some .list) :: inner = bytes := by
  rw [TypeDesc.nested, appendTypeDescBytes, appendEach_eq]
  exact Option.bind_eq_some_iff.trans (by simp)

theorem append_dict : appendTypeDescBytes (.nested .dict [key, value]) = some bytes ↔ ∃ first, appendTypeDescBytes key = some first ∧
    ∃ second, appendTypeDescBytes value = some second ∧ kindByte (some .dict) :: (first ++ second) = bytes := by
  rw [TypeDesc.nested, appendTypeDescBytes, appendEach_eq]
  exact Option.bind_eq_some_iff.trans (by simp [Option.bind_eq_some_iff])

theorem append_func (some_elem : elems ≠ []) : appendTypeDescBytes (.nested .func elems) = some bytes ↔ ∃ inner,
    joinAll (elems.map appendTypeDescBytes) = some inner ∧
      kindByte (some .func) :: UInt8.ofNat (elems.length - 1) :: inner = bytes := by
  rw [TypeDesc.nested, appendTypeDescBytes, appendEach_eq, if_neg some_elem]
  exact Option.bind_eq_some_iff.trans (by simp)

theorem joinAll_cons {part : Option Bytes} {parts : List (Option Bytes)} : joinAll (part :: parts) = some bytes ↔
    ∃ first, part = some first ∧ ∃ others, joinAll parts = some others ∧ first ++ others = bytes := by
  rw [joinAll]
  exact Option.bind_eq_some_iff.trans (by simp [Option.bind_eq_some_iff])

theorem joinAll_some {parts : List (Option Bytes)} (each : ∀ part ∈ parts, ∃ bytes, part = some bytes) :
    ∃ bytes, joinAll parts = some bytes := by
  induction parts with
  | nil => exact ⟨_, rfl⟩
  | cons part parts ih =>
    obtain ⟨_, first⟩ := each part (.head _)
    obtain ⟨_, others⟩ := ih fun other member => each other (.tail _ member)
    exact ⟨_, joinAll_cons.mpr ⟨_, first, _, others, rfl⟩⟩

end Append

section Positions
variable {data front tail : Bytes} {byte : UInt8} {pos : Nat}

theorem drop_past (here : data.drop pos = front ++ tail) : data.drop (pos + front.length) = tail := by
  rw [← List.drop_drop, here, List.drop_left]

theorem drop_next (here : data.drop pos = byte :: tail) : data.drop (pos + 1) = tail := by
  rw [← List.drop_drop, here, List.drop_one, List.tail_cons]

theorem readByte_ok : readByte data pos = .ok byte ↔ data[pos]? = some byte := by
  unfold readByte
  cases data[pos]? <;> simp

theorem nextByte_ok : nextByte data pos = .ok byte ↔ data[pos]? = some byte := by
  unfold nextByte
  split
  · rename_i ended
    rw [List.getElem?_eq_none ended]
    simp
  · exact readByte_ok

theorem at_drop (here : data.drop pos = byte :: tail) : data[pos]? = some byte := by
  have same : (data.drop pos)[0]? = data[pos + 0]? := List.getElem?_drop
  rw [here] at same
  exact same.symm

end Positions

section Parsing
variable {data bytes tail : Bytes} {pos depth calls : Nat}

theorem parseTypeIndex_ok {typeIdx : Nat} (small : typeIdx < 2 ^ 16) (here : data.drop pos = putWord 2 typeIdx ++ tail) :
    parseTypeIndex data pos = .ok (typeIdx, pos + 2) := by
  have low := at_drop here
  have next := drop_next here
  have high := at_drop next
  have room : ¬ sizeLeft data pos < 2 := by
    have count := congrArg List.length here
    rw [List.length_drop, List.length_append, putWord_length] at count
    rw [sizeLeft, if_pos (by omega)]
    omega
  have value : wordOf [UInt8.ofNat typeIdx, UInt8.ofNat (typeIdx / 256)] = typeIdx := by
    have whole := wordOf_putWord 2 typeIdx
    rwa [Nat.mod_eq_of_lt (by omega)] at whole
  rw [parseTypeIndex, if_neg room, readByte_ok.mpr low]
  refine except_bind_ok.mpr ⟨_, rfl, except_bind_ok.mpr ⟨_, readByte_ok.mpr high, ?_⟩⟩
  rw [value]

theorem parseOne_kind {kind : Option Rtk} (level : depth ≤ kMaxTypeDescDepth) (enough : kMaxTypeDescDepth + 2 ≤ calls + depth)
    (known : kind ∈ wireKinds) (here : data.drop pos = kindByte kind :: tail) :
    ∃ less, kMaxTypeDescDepth + 2 ≤ less + (depth + 1) ∧
      parseOne data calls depth pos = parseBody data (parseOne data less (depth + 1)) (pos + 1) kind := by
  obtain ⟨less, rfl⟩ : ∃ less, calls = less + 1 := ⟨calls - 1, by omega⟩
  refine ⟨less, by omega, ?_⟩
  rw [parseOne, if_neg (by omega), nextByte_ok.mpr (at_drop here)]
  change (match wireKinds.find? (kindByte · = kindByte kind) with | none => _ | some kind => _) = _
  rw [wireKinds_find known]

theorem isLeaf_known {kind : Option Rtk} (isLeaf : isLeafKind kind = true) : kind ∈ wireKinds :=
  (of_decide_eq_true isLeaf).1

theorem known_cases {kind : Option Rtk} (known : kind ∈ wireKinds) : isLeafKind kind = true ∨ kind = some .struct ∨
    kind = some .cls ∨ kind = some .array ∨ kind = some .list ∨ kind = some .dict ∨ kind = some .func := by
  by_cases composite : kind ∈ [some .struct, some .cls, some .array, some .list, some .dict, some .func]
  · exact .inr (by simpa using composite)
  · exact .inl (decide_eq_true ⟨known, composite⟩)

theorem append_leaf {kind : Option Rtk} (isLeaf : isLeafKind kind = true) :
    appendTypeDescBytes (.mk kind 0xFFFF 1 []) = some [kindByte kind] := by
  match kind, isLeaf with
  | none, _ => rfl
  | some kind, isLeaf => cases kind <;> first | rfl | exact absurd isLeaf (by decide)

theorem parseBody_leaf {kind : Option Rtk} {parse : Nat → Except ParseFault (TypeDesc × Nat)} (isLeaf : isLeafKind kind = true) :
    parseBody data parse pos kind = .ok (.mk kind 0xFFFF 1 [], pos) := by
  match kind, isLeaf with
  | none, _ => rfl
  | some kind, isLeaf => cases kind <;> first | rfl | exact absurd isLeaf (by decide)

theorem parseMany_ok {parse : Nat → Except ParseFault (TypeDesc × Nat)} {elems : List TypeDesc}
    (each : ∀ elem ∈ elems, ∀ pos bytes tail, appendTypeDescBytes elem = some bytes → data.drop pos = bytes ++ tail →
      parse pos = .ok (elem, pos + bytes.length)) (made : joinAll (elems.map appendTypeDescBytes) = some bytes)
    (here : data.drop pos = bytes ++ tail) : parseMany parse elems.length pos = .ok (elems, pos + bytes.length) := by
  induction elems generalizing pos bytes with
  | nil =>
    cases made
    rfl
  | cons elem elems ih =>
    obtain ⟨first, isFirst, others, isOthers, rfl⟩ := joinAll_cons.mp made
    rw [List.append_assoc] at here
    have parsed := each elem (.head _) pos first _ isFirst here
    have rest := ih (fun other member => each other (.tail _ member)) isOthers (drop_past here)
    rw [List.length_cons, parseMany, parsed]
    refine except_bind_ok.mpr ⟨_, rfl, except_bind_ok.mpr ⟨_, rest, ?_⟩⟩
    rw [List.length_append, Nat.add_assoc]

theorem parseOne_append {desc : TypeDesc} (fits : Fits desc depth) (enough : kMaxTypeDescDepth + 2 ≤ calls + depth)
    (made : appendTypeDescBytes desc = some bytes) (here : data.drop pos = bytes ++ tail) :
    parseOne data calls depth pos = .ok (desc, pos + bytes.length) := by
  induction fits generalizing calls pos bytes tail with
  | leaf level isLeaf =>
    cases (append_leaf isLeaf).symm.trans made
    obtain ⟨less, _, step⟩ := parseOne_kind level enough (isLeaf_known isLeaf) here
    rw [step, parseBody_leaf isLeaf]
    rfl
  | named level isNamed small =>
    rcases isNamed with rfl | rfl
    all_goals
      cases made
      obtain ⟨less, _, step⟩ := parseOne_kind level enough (by decide) here
      rw [step, parseBody, parseTypeIndex_ok small (drop_next here)]
      rfl
  | @array rank level_at elem level capped nested ih =>
    obtain ⟨inner, isInner, rfl⟩ := append_array.mp made
    obtain ⟨less, more, step⟩ := parseOne_kind level enough (by decide) here
    have next : data.drop (pos + 1) = inner ++ ([UInt8.ofNat rank] ++ tail) :=
      (drop_next here).trans (List.append_assoc ..)
    have parsed := ih more isInner next
    have ranked : nextByte data (pos + 1 + inner.length) = .ok (UInt8.ofNat rank) :=
      nextByte_ok.mpr (at_drop (drop_past next))
    have exact_rank : (UInt8.ofNat rank).toNat = rank := by
      rw [UInt8.toNat_ofNat']
      exact Nat.mod_eq_of_lt (Nat.lt_of_le_of_lt capped (by decide))
    have read : parseArrayBody data (parseOne data less (level_at + 1)) (pos + 1) =
        .ok (elem, rank, pos + 1 + inner.length + 1) := by
      refine except_bind_ok.mpr ⟨_, parsed, except_bind_ok.mpr ⟨_, ranked, ?_⟩⟩
      rw [exact_rank, if_neg (by omega)]
    rw [step]
    refine except_bind_ok.mpr ⟨_, read, ?_⟩
    simp only [List.length_cons, List.length_append, List.length_nil]
    congr 2
    omega
  | list level nested ih =>
    obtain ⟨inner, isInner, rfl⟩ := append_list.mp made
    obtain ⟨less, more, step⟩ := parseOne_kind level enough (by decide) here
    rw [step]
    refine except_bind_ok.mpr ⟨_, ih more isInner (drop_next here), ?_⟩
    simp only [List.length_cons]
    congr 2
    omega
  | dict level first second ihKey ihValue =>
    obtain ⟨key, isKey, value, isValue, rfl⟩ := append_dict.mp made
    obtain ⟨less, more, step⟩ := parseOne_kind level enough (by decide) here
    have next : data.drop (pos + 1) = key ++ (value ++ tail) := (drop_next here).trans (List.append_assoc ..)
    rw [step]
    refine except_bind_ok.mpr ⟨_, ihKey more isKey next, except_bind_ok.mpr ⟨_, ihValue more isValue (drop_past next), ?_⟩⟩
    simp only [List.length_cons, List.length_append]
    congr 2
    omega
  | @func level_at elems level count some_elem nested ih =>
    obtain ⟨inner, isInner, rfl⟩ := (append_func some_elem).mp made
    obtain ⟨less, more, step⟩ := parseOne_kind level enough (by decide) here
    have next := drop_next here
    have exact_count : (UInt8.ofNat (elems.length - 1)).toNat + 1 = elems.length := by
      rw [UInt8.toNat_ofNat', Nat.mod_eq_of_lt count]
      have := List.length_pos_iff.mpr some_elem
      omega
    have read : parseFuncElems data (parseOne data less (level_at + 1)) (pos + 1) =
        .ok (elems, pos + 1 + 1 + inner.length) := by
      refine except_bind_ok.mpr ⟨_, nextByte_ok.mpr (at_drop next), ?_⟩
      rw [exact_count]
      exact parseMany_ok (fun elem member _ _ _ => ih elem member more) isInner (drop_next next)
    rw [step]
    refine except_bind_ok.mpr ⟨_, read, ?_⟩
    simp only [List.length_cons]
    congr 2
    omega

end Parsing

def Spans (data : Bytes) (pos last : Nat) (bytes : Bytes) : Prop :=
  data.drop pos = bytes ++ data.drop last ∧ last = pos + bytes.length

namespace Spans
variable {data first second : Bytes} {pos mid last : Nat} {byte : UInt8}

theorem append (one : Spans data pos mid first) (two : Spans data mid last second) : Spans data pos last (first ++ second) := by
  obtain ⟨before, rfl⟩ := one
  obtain ⟨behind, rfl⟩ := two
  refine ⟨?_, by rw [List.length_append, Nat.add_assoc]⟩
  rw [before, behind, List.append_assoc]

theorem ofByte (here : data[pos]? = some byte) : Spans data pos (pos + 1) [byte] := by
  obtain ⟨inside, same⟩ := List.getElem?_eq_some_iff.mp here
  refine ⟨?_, rfl⟩
  rw [List.drop_eq_getElem_cons inside, same]
  rfl

theorem inside (span : Spans data pos last first) (here : pos ≤ data.length) : last ≤ data.length := by
  obtain ⟨split, rfl⟩ := span
  have count := congrArg List.length split
  rw [List.length_append, List.length_drop, List.length_drop] at count
  omega

end Spans

section Sound
variable {data : Bytes} {pos last depth calls : Nat} {desc : TypeDesc} {elems : List TypeDesc}

def Reads (data : Bytes) (depth pos : Nat) (desc : TypeDesc) (last : Nat) : Prop :=
  Fits desc depth ∧ ∃ bytes, appendTypeDescBytes desc = some bytes ∧ Spans data pos last bytes

theorem parseTypeIndex_spans {typeIdx : Nat} (done : parseTypeIndex data pos = .ok (typeIdx, last)) :
    typeIdx < 2 ^ 16 ∧ Spans data pos last (putWord 2 typeIdx) := by
  unfold parseTypeIndex at done
  split at done
  · cases done
  · obtain ⟨low, isLow, rest⟩ := except_bind_ok.mp done
    obtain ⟨high, isHigh, same⟩ := except_bind_ok.mp rest
    cases same
    have bytes := (Spans.ofByte (readByte_ok.mp isLow)).append (.ofByte (readByte_ok.mp isHigh))
    have same : putWord 2 (wordOf [low, high]) = [low, high] := putWord_wordOf [low, high]
    rw [same]
    exact ⟨by simpa using wordOf_lt [low, high], bytes⟩

theorem parseMany_reads {parse : Nat → Except ParseFault (TypeDesc × Nat)} {count : Nat}
    (each : ∀ pos desc last, parse pos = .ok (desc, last) → Reads data depth pos desc last)
    (done : parseMany parse count pos = .ok (elems, last)) : elems.length = count ∧ (∀ elem ∈ elems, Fits elem depth) ∧
      ∃ inner, joinAll (elems.map appendTypeDescBytes) = some inner ∧ Spans data pos last inner := by
  induction count generalizing pos elems with
  | zero =>
    cases done
    exact ⟨rfl, nofun, [], rfl, rfl, rfl⟩
  | succ count ih =>
    obtain ⟨⟨first, mid⟩, parsed, rest⟩ := except_bind_ok.mp done
    obtain ⟨⟨others, _⟩, more, same⟩ := except_bind_ok.mp rest
    cases same
    obtain ⟨fits, bytes, made, front⟩ := each _ _ _ parsed
    obtain ⟨rfl, all_fit, inner, joined, back⟩ := ih more
    refine ⟨rfl, ?_, bytes ++ inner, joinAll_cons.mpr ⟨_, made, _, joined, rfl⟩, front.append back⟩
    rintro elem (_ | ⟨_, member⟩)
    · exact fits
    · exact all_fit elem member

theorem parseBody_reads {parse : Nat → Except ParseFault (TypeDesc × Nat)} {kind : Option Rtk} (level : depth ≤ kMaxTypeDescDepth)
    (known : kind ∈ wireKinds) (each : ∀ pos desc last, parse pos = .ok (desc, last) → Reads data (depth + 1) pos desc last)
    (here : data[pos]? = some (kindByte kind)) (done : parseBody data parse (pos + 1) kind = .ok (desc, last)) :
    Reads data depth pos desc last := by
  have front := Spans.ofByte here
  rcases known_cases known with isLeaf | composite
  · rw [parseBody_leaf isLeaf] at done
    cases done
    exact ⟨.leaf level isLeaf, _, append_leaf isLeaf, front⟩
  · rcases composite with rfl | rfl | rfl | rfl | rfl | rfl
    · obtain ⟨⟨typeIdx, _⟩, index, same⟩ := except_bind_ok.mp done
      cases same
      obtain ⟨small, back⟩ := parseTypeIndex_spans index
      exact ⟨.named level (.inl rfl) small, _, rfl, front.append back⟩
    · obtain ⟨⟨typeIdx, _⟩, index, same⟩ := except_bind_ok.mp done
      cases same
      obtain ⟨small, back⟩ := parseTypeIndex_spans index
      exact ⟨.named level (.inr rfl) small, _, rfl, front.append back⟩
    · obtain ⟨⟨elem, rank, _⟩, body, same⟩ := except_bind_ok.mp done
      cases same
      obtain ⟨⟨_, mid⟩, parsed, rest⟩ := except_bind_ok.mp body
      obtain ⟨byte, isRank, checked⟩ := except_bind_ok.mp rest
      obtain ⟨fits, inner, made, back⟩ := each _ _ _ parsed
      split at checked
      · cases checked
      · rename_i capped
        cases checked
        refine ⟨.array level (by omega) fits, _, append_array.mpr ⟨_, made, ?_⟩, front.append (back.append (.ofByte (nextByte_ok.mp isRank)))⟩
        rw [UInt8.ofNat_toNat]
        rfl
    · obtain ⟨⟨elem, _⟩, parsed, same⟩ := except_bind_ok.mp done
      cases same
      obtain ⟨fits, inner, made, back⟩ := each _ _ _ parsed
      exact ⟨.list level fits, _, append_list.mpr ⟨_, made, rfl⟩, front.append back⟩
    · obtain ⟨⟨key, _⟩, parsedKey, rest⟩ := except_bind_ok.mp done
      obtain ⟨⟨value, _⟩, parsedValue, same⟩ := except_bind_ok.mp rest
      cases same
      obtain ⟨fitsKey, first, madeKey, spanKey⟩ := each _ _ _ parsedKey
      obtain ⟨fitsValue, second, madeValue, spanValue⟩ := each _ _ _ parsedValue
      exact ⟨.dict level fitsKey fitsValue, _, append_dict.mpr ⟨_, madeKey, _, madeValue, rfl⟩,
        front.append (spanKey.append spanValue)⟩
    · obtain ⟨⟨elems, _⟩, body, same⟩ := except_bind_ok.mp done
      cases same
      obtain ⟨byte, isCount, many⟩ := except_bind_ok.mp body
      obtain ⟨length, fits, inner, joined, back⟩ := parseMany_reads each many
      have some_elem : elems ≠ [] := List.length_pos_iff.mp (by omega)
      have count : elems.length - 1 = byte.toNat := by omega
      have small : elems.length - 1 < 2 ^ 8 := count ▸ byte.toNat_lt
      refine ⟨.func level small some_elem fits, _, (append_func some_elem).mpr ⟨_, joined, ?_⟩,
        front.append ((Spans.ofByte (nextByte_ok.mp isCount)).append back)⟩
      rw [count, UInt8.ofNat_toNat]
      rfl

theorem parseOne_reads (done : parseOne data calls depth pos = .ok (desc, last)) : Reads data depth pos desc last := by
  induction calls generalizing depth pos desc last with
  | zero => cases done
  | succ calls ih =>
    rw [parseOne] at done
    split at done
    · cases done
    · rename_i level
      obtain ⟨byte, isByte, rest⟩ := except_bind_ok.mp done
      cases found : wireKinds.find? (kindByte · = byte) with
      | none =>
        rw [found] at rest
        cases rest
      | some kind =>
        rw [found] at rest
        have isKind : kindByte kind = byte := by simpa using List.find?_some found
        exact parseBody_reads (by omega) (List.mem_of_find?_eq_some found) (fun _ _ _ => ih)
          (isKind ▸ nextByte_ok.mp isByte) rest

end Sound

theorem parseTypeDescBytes_ok {bytes : Bytes} {desc : TypeDesc} :
    parseTypeDescBytes bytes = .ok desc ↔ Fits desc 0 ∧ appendTypeDescBytes desc = some bytes := by
  constructor
  · intro done
    obtain ⟨⟨_, last⟩, parsed, rest⟩ := except_bind_ok.mp done
    obtain ⟨fits, out, made, span, _⟩ := parseOne_reads parsed
    dsimp only at rest
    split at rest
    · cases rest
    · rename_i ended
      cases rest
      rw [not_not.mp ended, List.drop_length, List.append_nil, List.drop_zero] at span
      exact ⟨fits, span ▸ made⟩
  · intro ⟨fits, made⟩
    have parsed := parseOne_append fits (Nat.le_refl _) made (by simp : bytes.drop 0 = bytes ++ [])
    refine except_bind_ok.mpr ⟨_, parsed, ?_⟩
    simp

section Refused
variable {data : Bytes} {pos depth calls : Nat} {fault : ParseFault}

theorem nextByte_thrown (failed : nextByte data pos = .error fault) : fault.thrown = true := by
  unfold nextByte at failed
  split at failed
  · cases failed
    rfl
  · rename_i more
    rw [readByte_ok.mpr (List.getElem?_eq_getElem (Nat.lt_of_not_le more))] at failed
    cases failed

theorem parseTypeIndex_thrown (inside : pos ≤ data.length) (failed : parseTypeIndex data pos = .error fault) :
    fault.thrown = true := by
  unfold parseTypeIndex at failed
  split at failed
  · cases failed
    rfl
  · rename_i room
    rw [sizeLeft, if_pos inside] at room
    have read (i : Nat) (at_ : i < data.length) := readByte_ok.mpr (List.getElem?_eq_getElem at_)
    rw [read pos (by omega), read (pos + 1) (by omega)] at failed
    cases failed

def Guarded (data : Bytes) (parse : Nat → Except ParseFault (TypeDesc × Nat)) : Prop :=
  ∀ pos ≤ data.length, (∀ desc last, parse pos = .ok (desc, last) → last ≤ data.length) ∧
    ∀ fault, parse pos = .error fault → fault.thrown = true

variable {parse : Nat → Except ParseFault (TypeDesc × Nat)}

theorem parseMany_thrown {count : Nat} (guarded : Guarded data parse) (inside : pos ≤ data.length)
    (failed : parseMany parse count pos = .error fault) : fault.thrown = true := by
  induction count generalizing pos with
  | zero => cases failed
  | succ count ih =>
    rcases except_bind_error.mp failed with first | ⟨⟨_, mid⟩, parsed, rest⟩
    · exact (guarded pos inside).2 _ first
    · rcases except_bind_error.mp rest with others | ⟨_, _, done⟩
      · exact ih ((guarded pos inside).1 _ _ parsed) others
      · cases done

theorem parseBody_thrown {kind : Option Rtk} (known : kind ∈ wireKinds) (guarded : Guarded data parse) (inside : pos ≤ data.length)
    (failed : parseBody data parse pos kind = .error fault) : fault.thrown = true := by
  have nested {pos : Nat} (inside : pos ≤ data.length) {fault} := (guarded pos inside).2 fault
  rcases known_cases known with isLeaf | composite
  · rw [parseBody_leaf isLeaf] at failed
    cases failed
  · rcases composite with rfl | rfl | rfl | rfl | rfl | rfl
    · rcases except_bind_error.mp failed with index | ⟨_, _, done⟩
      · exact parseTypeIndex_thrown inside index
      · cases done
    · rcases except_bind_error.mp failed with index | ⟨_, _, done⟩
      · exact parseTypeIndex_thrown inside index
      · cases done
    · rcases except_bind_error.mp failed with body | ⟨_, _, done⟩
      · rcases except_bind_error.mp body with elem | ⟨_, _, rest⟩
        · exact nested inside elem
        · rcases except_bind_error.mp rest with ended | ⟨_, _, checked⟩
          · exact nextByte_thrown ended
          · split at checked
            · cases checked
              rfl
            · cases checked
      · cases done
    · rcases except_bind_error.mp failed with elem | ⟨_, _, done⟩
      · exact nested inside elem
      · cases done
    · rcases except_bind_error.mp failed with key | ⟨_, parsed, rest⟩
      · exact nested inside key
      · rcases except_bind_error.mp rest with value | ⟨_, _, done⟩
        · exact nested ((guarded pos inside).1 _ _ parsed) value
        · cases done
    · rcases except_bind_error.mp failed with body | ⟨_, _, done⟩
      · rcases except_bind_error.mp body with ended | ⟨_, isCount, many⟩
        · exact nextByte_thrown ended
        · have more : pos + 1 ≤ data.length := (List.getElem?_eq_some_iff.mp (nextByte_ok.mp isCount)).1
          exact parseMany_thrown guarded more many
      · cases done

theorem parseOne_thrown (enough : kMaxTypeDescDepth + 2 ≤ calls + depth) (inside : pos ≤ data.length) (shallow : depth ≤ kMaxTypeDescDepth + 1)
    (failed : parseOne data calls depth pos = .error fault) : fault.thrown = true := by
  induction calls generalizing depth pos fault with
  | zero => omega
  | succ calls ih =>
    rw [parseOne] at failed
    split at failed
    · cases failed
      rfl
    · rename_i level
      rcases except_bind_error.mp failed with ended | ⟨byte, isByte, rest⟩
      · exact nextByte_thrown ended
      · have more : pos + 1 ≤ data.length := (List.getElem?_eq_some_iff.mp (nextByte_ok.mp isByte)).1
        have guarded : Guarded data (parseOne data calls (depth + 1)) := by
          intro pos inside
          refine ⟨fun desc last done => ?_, fun fault failed => ih (by omega) inside (by omega) failed⟩
          obtain ⟨_, bytes, _, span⟩ := parseOne_reads done
          exact span.inside inside
        cases found : wireKinds.find? (kindByte · = byte) with
        | none =>
          rw [found] at rest
          cases rest
          rfl
        | some kind =>
          rw [found] at rest
          exact parseBody_thrown (List.mem_of_find?_eq_some found) guarded more rest

end Refused

theorem parseTypeDescBytes_thrown {bytes : Bytes} {fault : ParseFault} (failed : parseTypeDescBytes bytes = .error fault) :
    fault.thrown = true := by
  rcases except_bind_error.mp failed with parsed | ⟨⟨_, last⟩, _, rest⟩
  · refine parseOne_thrown ?_ (Nat.zero_le _) (Nat.zero_le _) parsed
    exact Nat.le_refl _
  · dsimp only at rest
    split at rest
    · cases rest
      rfl
    · cases rest

def TypeNode.parts : TypeNode → List TypeNode
  | .arrayToken _ elem => [elem]
  | .func (ret :: params) => params ++ [ret]
  | .generic .list [elem] _ => [elem]
  | .generic .dict [key, value] _ => [key, value]
  | .generic .array [elem] _ => [elem]
  | _ => []

inductive Occurs : TypeNode → TypeNode → Nat → Prop where
  | here (type : TypeNode) : Occurs type type 0
  | within {type part inner : TypeNode} {level : Nat} (isPart : part ∈ type.parts) (rest : Occurs part inner level) :
      Occurs type inner (level + 1)

def TypeNode.Narrow : TypeNode → Prop
  | .arrayToken rank _ => rank ≤ kMaxArrayRank
  | .func args => args.length ≤ 256
  | _ => True

section Build
variable {slots : TypeLeafSlots} {type : TypeNode} {depth : Nat}

theorem buildTypeDescs_eq (types : List TypeNode) (depth : Nat) :
    buildTypeDescs slots types depth = types.map (buildTypeDesc slots · depth) := by
  induction types with
  | nil => rfl
  | cons type types ih => rw [buildTypeDescs, ih, List.map_cons]

theorem fits_array {rank : Nat} {elem : TypeDesc} (level : depth ≤ kMaxTypeDescDepth) :
    Fits (.array rank elem) depth ↔ rank ≤ kMaxArrayRank ∧ Fits elem (depth + 1) := by
  refine ⟨fun fits => ?_, fun ⟨capped, nested⟩ => .array level capped nested⟩
  cases fits with
  | array _ capped nested => exact ⟨capped, nested⟩

theorem fits_list {elem : TypeDesc} (level : depth ≤ kMaxTypeDescDepth) :
    Fits (.nested .list [elem]) depth ↔ Fits elem (depth + 1) := by
  refine ⟨fun fits => ?_, .list level⟩
  cases fits with
  | list _ nested => exact nested

theorem fits_dict {key value : TypeDesc} (level : depth ≤ kMaxTypeDescDepth) :
    Fits (.nested .dict [key, value]) depth ↔ Fits key (depth + 1) ∧ Fits value (depth + 1) := by
  refine ⟨fun fits => ?_, fun ⟨first, second⟩ => .dict level first second⟩
  cases fits with
  | dict _ first second => exact ⟨first, second⟩

theorem fits_func {elems : List TypeDesc} (level : depth ≤ kMaxTypeDescDepth) (some_elem : elems ≠ []) :
    Fits (.nested .func elems) depth ↔ elems.length ≤ 256 ∧ ∀ elem ∈ elems, Fits elem (depth + 1) := by
  refine ⟨fun fits => ?_, fun ⟨count, nested⟩ => .func level (by omega) some_elem nested⟩
  cases fits with
  | leaf | named => exact absurd rfl some_elem
  | func _ count _ nested => exact ⟨by omega, nested⟩

theorem fits_leaf {kind : Rtk} (level : depth ≤ kMaxTypeDescDepth) (isLeaf : isLeafKind (some kind) = true) :
    Fits (.leaf kind) depth := .leaf level isLeaf

theorem fits_nonSerialized (level : depth ≤ kMaxTypeDescDepth) : Fits .nonSerialized depth :=
  .leaf level (by decide)

theorem scalar_isLeaf {kind : Rtk} (scalar : kind.scalarWidth.isSome = true) : isLeafKind (some kind) = true := by
  cases kind <;> first | rfl | cases scalar

theorem fits_classDesc (level : depth ≤ kMaxTypeDescDepth) : Fits (classDesc slots type) depth :=
  .named level (.inr rfl) (Nat.mod_lt _ (by decide))

theorem build_func (ret : TypeNode) (params : List TypeNode) : ∃ last,
    buildTypeDesc slots (.func (ret :: params)) depth =
      atDepth depth (.nested .func (params.map (buildTypeDesc slots · (depth + 1)) ++ [last])) ∧
    (depth < kMaxTypeDescDepth → (Fits last (depth + 1) ↔ Fits (buildTypeDesc slots ret (depth + 1)) (depth + 1))) := by
  rw [← buildTypeDescs_eq]
  cases ret with
  | void => exact ⟨_, rfl, fun above => iff_of_true (fits_leaf above (by decide)) (fits_nonSerialized above)⟩
  | _ => exact ⟨_, rfl, fun _ => .rfl⟩

theorem build_cases (level : depth ≤ kMaxTypeDescDepth) :
    (type.Narrow ∧ type.parts = [] ∧ Fits (buildTypeDesc slots type depth) depth) ∨
      ∃ desc, buildTypeDesc slots type depth = atDepth depth desc ∧ (depth < kMaxTypeDescDepth → (Fits desc depth ↔
        type.Narrow ∧ ∀ part ∈ type.parts, Fits (buildTypeDesc slots part (depth + 1)) (depth + 1))) := by
  match type with
  | .missing | .unresolvedArray | .interfaceDecl | .void => exact .inl ⟨trivial, rfl, fits_nonSerialized level⟩
  | .func [] => exact .inl ⟨Nat.zero_le _, rfl, fits_nonSerialized level⟩
  | .enumDecl | .typeParam | .string => exact .inl ⟨trivial, rfl, fits_leaf level (by decide)⟩
  | .structDecl decl => exact .inl ⟨trivial, rfl, .named level (.inl rfl) (Nat.mod_lt _ (by decide))⟩
  | .classDecl decl | .object => exact .inl ⟨trivial, rfl, fits_classDesc level⟩
  | .builtin kind =>
    refine .inl ⟨trivial, rfl, ?_⟩
    rw [buildTypeDesc]
    split
    · rename_i scalar
      exact fits_leaf level (scalar_isLeaf scalar)
    · exact fits_nonSerialized level
  | .arrayToken rank elem =>
    refine .inr ⟨_, rfl, fun _ => (fits_array level).trans ?_⟩
    simp [TypeNode.Narrow, TypeNode.parts]
  | .generic .list [elem] decl =>
    refine .inr ⟨_, rfl, fun _ => (fits_list level).trans ?_⟩
    simp [TypeNode.Narrow, TypeNode.parts]
  | .generic .dict [key, value] decl =>
    refine .inr ⟨_, rfl, fun _ => (fits_dict level).trans ?_⟩
    simp [TypeNode.Narrow, TypeNode.parts]
  | .generic .array [elem] decl =>
    refine .inr ⟨_, rfl, fun _ => (fits_array level).trans ?_⟩
    simp [TypeNode.Narrow, TypeNode.parts]
  | .generic .list [] decl | .generic .list (_ :: _ :: _) decl | .generic .dict [] decl | .generic .dict [_] decl
  | .generic .dict (_ :: _ :: _ :: _) decl | .generic .array [] decl | .generic .array (_ :: _ :: _) decl
  | .generic .other args decl => exact .inl ⟨trivial, rfl, fits_classDesc level⟩
  | .func (ret :: params) =>
    obtain ⟨last, same, fits⟩ := @build_func slots depth ret params
    refine .inr ⟨_, same, fun above => ?_⟩
    rw [fits_func level (by simp)]
    simp only [List.forall_mem_append, List.forall_mem_singleton, List.forall_mem_map, List.length_append, List.length_map,
      fits above, TypeNode.Narrow, TypeNode.parts, List.length_cons, List.length_nil]

theorem build_at_limit (limit : depth = kMaxTypeDescDepth) : Fits (buildTypeDesc slots type depth) depth := by
  rcases build_cases (Nat.le_of_eq limit) with ⟨_, _, fits⟩ | ⟨desc, same, _⟩
  · exact fits
  · rw [same, atDepth, if_pos (Nat.le_of_eq limit.symm)]
    exact fits_nonSerialized (Nat.le_of_eq limit)

theorem build_step (above : depth < kMaxTypeDescDepth) : Fits (buildTypeDesc slots type depth) depth ↔
    type.Narrow ∧ ∀ part ∈ type.parts, Fits (buildTypeDesc slots part (depth + 1)) (depth + 1) := by
  rcases build_cases (Nat.le_of_lt above) with ⟨narrow, none, fits⟩ | ⟨desc, same, step⟩
  · rw [none]
    exact iff_of_true fits ⟨narrow, nofun⟩
  · rw [same, atDepth, if_neg (Nat.not_le.mpr above)]
    exact step above

theorem forall_occurs {P : TypeNode → Nat → Prop} : (∀ inner level, Occurs type inner level → P inner level) ↔
    P type 0 ∧ ∀ part ∈ type.parts, ∀ inner level, Occurs part inner level → P inner (level + 1) := by
  constructor
  · intro all
    exact ⟨all _ _ (.here _), fun part isPart inner level rest => all _ _ (.within isPart rest)⟩
  · rintro ⟨atRoot, inParts⟩ inner level occurs
    cases occurs with
    | here => exact atRoot
    | within isPart rest => exact inParts _ isPart _ _ rest

theorem build_fits {levels : Nat} (left : depth + levels = kMaxTypeDescDepth) : Fits (buildTypeDesc slots type depth) depth ↔
    ∀ inner level, Occurs type inner level → level < levels → inner.Narrow := by
  induction levels generalizing type depth with
  | zero => exact iff_of_true (build_at_limit left) (fun _ _ _ none => absurd none (Nat.not_lt_zero _))
  | succ levels ih =>
    rw [build_step (by omega), forall_occurs]
    refine and_congr (by simp) (forall₂_congr fun part _ => ?_)
    simpa using ih (by omega)

end Build

theorem fits_append {desc : TypeDesc} {depth : Nat} (fits : Fits desc depth) : ∃ bytes, appendTypeDescBytes desc = some bytes := by
  induction fits with
  | leaf _ isLeaf => exact ⟨_, append_leaf isLeaf⟩
  | named _ isNamed => rcases isNamed with rfl | rfl <;> exact ⟨_, rfl⟩
  | array _ _ _ ih => exact ih.elim fun _ made => ⟨_, append_array.mpr ⟨_, made, rfl⟩⟩
  | list _ _ ih => exact ih.elim fun _ made => ⟨_, append_list.mpr ⟨_, made, rfl⟩⟩
  | dict _ _ _ ihKey ihValue =>
    obtain ⟨_, key⟩ := ihKey
    obtain ⟨_, value⟩ := ihValue
    exact ⟨_, append_dict.mpr ⟨_, key, _, value, rfl⟩⟩
  | @func _ elems _ _ some_elem _ ih =>
    obtain ⟨_, joined⟩ := joinAll_some (List.forall_mem_map.mpr ih)
    exact ⟨_, (append_func some_elem).mpr ⟨_, joined, rfl⟩⟩

def RoundTrips (desc : TypeDesc) : Prop :=
  ∃ bytes, appendTypeDescBytes desc = some bytes ∧ parseTypeDescBytes bytes = .ok desc

theorem roundTrips_iff {desc : TypeDesc} : RoundTrips desc ↔ Fits desc 0 := by
  constructor
  · rintro ⟨bytes, -, parsed⟩
    exact (parseTypeDescBytes_ok.mp parsed).1
  · intro fits
    obtain ⟨bytes, made⟩ := fits_append fits
    exact ⟨bytes, made, parseTypeDescBytes_ok.mpr ⟨fits, made⟩⟩

/-- The codec is exact on what the backend builds when no array type above the depth limit has more ranks, and no
function type there more parameters, than their bytes hold. What is parsed is written with the bytes that were parsed,
and the parser throws on all other bytes. -/
theorem typeDesc_codec (slots : TypeLeafSlots) (type : TypeNode) :
    (RoundTrips (buildTypeDesc slots type 0) ↔
      ∀ inner level, Occurs type inner level → level < kMaxTypeDescDepth → inner.Narrow) ∧
    ∀ bytes, (∀ desc, parseTypeDescBytes bytes = .ok desc → appendTypeDescBytes desc = some bytes) ∧
      ∀ fault, parseTypeDescBytes bytes = .error fault → fault.thrown = true := by
  refine ⟨?_, fun bytes => ⟨fun desc parsed => (parseTypeDescBytes_ok.mp parsed).2, fun fault => parseTypeDescBytes_thrown⟩⟩
  rw [roundTrips_iff]
  exact build_fits (Nat.zero_add _)

theorem wide_signature_not_parsed : ¬ RoundTrips
    (buildTypeDesc ⟨fun _ => 0, fun _ => 0⟩ (.func (List.replicate 257 (.builtin .int32))) 0) := by
  intro parsed
  have narrow : (List.replicate 257 (TypeNode.builtin .int32)).length ≤ 256 :=
    (build_fits (Nat.zero_add _)).mp (roundTrips_iff.mp parsed) _ _ (.here _) (by decide)
  rw [List.length_replicate] at narrow
  omega

end NLang.Backend
