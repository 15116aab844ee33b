import NLang.Library.Walks
import NLang.Linker.Link

/-!
# Default expressions in an image

The grammar of `ExprDesc.h` and `ExprDescRemapStrings`, which walks a stream in place: what it makes of the bytes of a
tree, and what it does with any bytes.
-/

namespace NLang.Linker
open NLang.Library NLang.Library.Words NLang.Library.Walks NLang.Image

inductive ExprDesc where
  | scalar (tag : UInt8) (payload : Bytes)
  | string (idx : UInt32)
  | null
  | formalRef (idx : UInt8)
  | neg (operand : ExprDesc)
  | binary (op : UInt8) (left right : ExprDesc)
  | call (key : Text) (paramCount : UInt32) (args : List ExprDesc)

def payloadSize (tag : UInt8) : Option Nat :=
  if tag = ExprTag.int32 ∨ tag = ExprTag.float then some 4
  else if tag = ExprTag.long ∨ tag = ExprTag.ulong ∨ tag = ExprTag.double then some 8
  else none

namespace ExprDesc

def callHead (key : Text) (paramCount : UInt32) (argCount : Nat) : Bytes :=
  putWord 2 key.length ++ (key ++ (putWord 4 paramCount.toNat ++ putWord 1 argCount))

mutual

def bytes : ExprDesc → Bytes
  | .scalar tag payload => tag :: payload
  | .string idx => ExprTag.string :: putWord 4 idx.toNat
  | .null => [ExprTag.null]
  | .formalRef idx => [ExprTag.formalRef, idx]
  | .neg operand => ExprTag.neg :: operand.bytes
  | .binary op left right => ExprTag.binary :: op :: (left.bytes ++ right.bytes)
  | .call key paramCount args => ExprTag.call :: (callHead key paramCount args.length ++ allBytes args)

def allBytes : List ExprDesc → Bytes
  | [] => []
  | arg :: args => arg.bytes ++ allBytes args

end

section Strings
variable (lookup : UInt32 → UInt32)

mutual

def mapStrings : ExprDesc → ExprDesc
  | .string idx => .string (lookup idx)
  | .neg operand => .neg operand.mapStrings
  | .binary op left right => .binary op left.mapStrings right.mapStrings
  | .call key paramCount args => .call key paramCount (mapAllStrings args)
  | .scalar tag payload => .scalar tag payload
  | .null => .null
  | .formalRef idx => .formalRef idx

def mapAllStrings : List ExprDesc → List ExprDesc
  | [] => []
  | arg :: args => arg.mapStrings :: mapAllStrings args

end

end Strings

mutual

def nodes : ExprDesc → Nat → List Nat
  | .neg operand, pos => pos :: operand.nodes (pos + 1)
  | .binary _ left right, pos => pos :: (left.nodes (pos + 2) ++ right.nodes (pos + 2 + left.bytes.length))
  | .call key paramCount args, pos => pos :: allNodes args (pos + 1 + (callHead key paramCount args.length).length)
  | .scalar .., pos | .string _, pos | .null, pos | .formalRef _, pos => [pos]

def allNodes : List ExprDesc → Nat → List Nat
  | [], _ => []
  | arg :: args, pos => arg.nodes pos ++ allNodes args (pos + arg.bytes.length)

end

mutual

def stringSlots : ExprDesc → Nat → List Nat
  | .string _, pos => [pos + 1]
  | .neg operand, pos => operand.stringSlots (pos + 1)
  | .binary _ left right, pos => left.stringSlots (pos + 2) ++ right.stringSlots (pos + 2 + left.bytes.length)
  | .call key paramCount args, pos => allStringSlots args (pos + 1 + (callHead key paramCount args.length).length)
  | .scalar .., _ | .null, _ | .formalRef _, _ => []

def allStringSlots : List ExprDesc → Nat → List Nat
  | [], _ => []
  | arg :: args, pos => arg.stringSlots pos ++ allStringSlots args (pos + arg.bytes.length)

end

inductive Fits : ExprDesc → Nat → Prop where
  | scalar {tag : UInt8} {payload : Bytes} {depth : Nat} (level : depth ≤ kMaxExprDescDepth)
      (sized : payloadSize tag = some payload.length) : Fits (.scalar tag payload) depth
  | string {idx : UInt32} {depth : Nat} (level : depth ≤ kMaxExprDescDepth) : Fits (.string idx) depth
  | null {depth : Nat} (level : depth ≤ kMaxExprDescDepth) : Fits .null depth
  | formalRef {idx : UInt8} {depth : Nat} (level : depth ≤ kMaxExprDescDepth) : Fits (.formalRef idx) depth
  | neg {operand : ExprDesc} {depth : Nat} (level : depth ≤ kMaxExprDescDepth) (nested : Fits operand (depth + 1)) :
      Fits (.neg operand) depth
  | binary {op : UInt8} {left right : ExprDesc} {depth : Nat} (level : depth ≤ kMaxExprDescDepth) (known : op ≤ lastBinaryOp)
      (first : Fits left (depth + 1)) (second : Fits right (depth + 1)) : Fits (.binary op left right) depth
  | call {key : Text} {paramCount : UInt32} {args : List ExprDesc} {depth : Nat} (level : depth ≤ kMaxExprDescDepth)
      (short : key.length < 2 ^ 16) (few : args.length < 2 ^ 8) (nested : ∀ arg ∈ args, Fits arg (depth + 1)) :
      Fits (.call key paramCount args) depth

structure RemapState where
  bytes : Bytes
  offset : Nat
  entered : List Nat

abbrev Remap (α : Type) := Walk Unit RemapState α

def readBytes (count : Nat) : Remap Bytes := fun state => do
  let (chunk, offset) ← read state.bytes () count state.offset
  .ok (chunk, { state with offset })

def readWord (width : Nat) : Remap Nat := do return wordOf (← readBytes width)

def skipBytes (count : Nat) : Remap Unit := fun state => do
  let offset ← skip state.bytes () count state.offset
  .ok ((), { state with offset })

def writeBack (chunk : Bytes) : Remap Unit := fun state =>
  if chunk.length ≤ state.offset ∧ state.offset ≤ state.bytes.length then
    .ok ((), { state with bytes := overwrite state.bytes (state.offset - chunk.length) chunk })
  else .error .overrun

def enter : Remap Unit := fun state => .ok ((), { state with entered := state.entered ++ [state.offset] })

section Remap
variable (lookup : UInt32 → UInt32)

def remapCall (child : Remap Unit) : Remap Unit := do
  let keyLen ← readWord 2
  skipBytes keyLen
  let _ ← readWord 4
  let argCount ← readWord 1
  let _ ← times child argCount

def remapString : Remap Unit := do
  let idx ← readWord 4
  writeBack (putWord 4 (lookup (UInt32.ofNat idx)).toNat)

def remapTag (child : Remap Unit) (tag : UInt8) : Remap Unit :=
  match payloadSize tag with
  | some size => do let _ ← readBytes size
  | none =>
    if tag = ExprTag.string then remapString lookup
    else if tag = ExprTag.null then pure ()
    else if tag = ExprTag.formalRef then do let _ ← readBytes 1
    else if tag = ExprTag.neg then child
    else if tag = ExprTag.binary then do
      let op ← readWord 1
      if lastBinaryOp.toNat < op then refuse ()
      else do
        child
        child
    else if tag = ExprTag.call then remapCall child
    else refuse ()

def remapTree : Nat → Nat → Remap Unit
  | 0, _ => outOfCalls
  | calls + 1, depth =>
    if kMaxExprDescDepth < depth then refuse ()
    else do
      enter
      let tag ← readWord 1
      remapTag lookup (remapTree calls (depth + 1)) (UInt8.ofNat tag)

def remapStream (stream : Bytes) : Except (Fault Unit) RemapState :=
  if stream = [] then .ok ⟨[], 0, []⟩
  else do
    let ((), state) ← remapTree lookup (kMaxExprDescDepth + 2) 0 ⟨stream, 0, []⟩
    if state.offset = state.bytes.length then .ok state else .error (.refused ())

end Remap

section Bytes
variable {lookup : UInt32 → UInt32} {tree : ExprDesc} {args : List ExprDesc} {depth : Nat}

theorem mapAllStrings_length (args : List ExprDesc) : (mapAllStrings lookup args).length = args.length := by
  induction args with
  | nil => rfl
  | cons arg args ih => rw [mapAllStrings, List.length_cons, ih, List.length_cons]

theorem allBytes_length_map
    (each : ∀ arg ∈ args, (arg.mapStrings lookup).bytes.length = arg.bytes.length) :
    (allBytes (mapAllStrings lookup args)).length = (allBytes args).length := by
  induction args with
  | nil => rfl
  | cons arg args ih =>
    have others := ih fun other member => each other (.tail _ member)
    simp only [mapAllStrings, allBytes, List.length_append]
    rw [each arg (.head _), others]

theorem bytes_length_map (fits : Fits tree depth) : (tree.mapStrings lookup).bytes.length = tree.bytes.length := by
  induction fits with
  | scalar | null | formalRef => rfl
  | string => simp [mapStrings, bytes]
  | neg _ _ ih => simp only [mapStrings, bytes, List.length_cons, ih]
  | binary _ _ _ _ ihLeft ihRight => simp only [mapStrings, bytes, List.length_cons, List.length_append, ihLeft, ihRight]
  | call _ _ _ _ ih =>
    simp only [mapStrings, bytes, List.length_cons, List.length_append, mapAllStrings_length, allBytes_length_map ih]

end Bytes

section Steps
variable {before chunk tail : Bytes} {entered : List Nat}

def atPos (before tail : Bytes) (entered : List Nat) : RemapState := ⟨before ++ tail, before.length, entered⟩

theorem atPos_append : atPos (before ++ chunk) tail entered = ⟨before ++ (chunk ++ tail), before.length + chunk.length, entered⟩ := by
  rw [atPos, List.append_assoc, List.length_append]

theorem readBytes_at : readBytes chunk.length (atPos before (chunk ++ tail) entered) = .ok (chunk, atPos (before ++ chunk) tail entered) := by
  have here : (before ++ (chunk ++ tail)).drop before.length = chunk ++ tail := List.drop_left
  change (read (before ++ (chunk ++ tail)) () chunk.length before.length >>= _) = _
  rw [read_eq here (by simp), atPos_append]
  rfl

theorem readWord_at {width value : Nat} (small : value < 256 ^ width) :
    readWord width (atPos before (putWord width value ++ tail) entered) =
      .ok (value, atPos (before ++ putWord width value) tail entered) := by
  have chunk := @readBytes_at before (putWord width value) tail entered
  rw [putWord_length] at chunk
  rw [readWord, bind_eq chunk, wordOf_putWord, Nat.mod_eq_of_lt small]
  rfl

theorem skipBytes_at : skipBytes chunk.length (atPos before (chunk ++ tail) entered) = .ok ((), atPos (before ++ chunk) tail entered) := by
  have here : (before ++ (chunk ++ tail)).drop before.length = chunk ++ tail := List.drop_left
  change (skip (before ++ (chunk ++ tail)) () chunk.length before.length >>= _) = _
  rw [skip_eq here (by simp), atPos_append]
  rfl

theorem writeBack_at {written : Bytes} (same : written.length = chunk.length) :
    writeBack written (atPos (before ++ chunk) tail entered) = .ok ((), atPos (before ++ written) tail entered) := by
  have start : (before ++ chunk).length - written.length = before.length := by
    rw [List.length_append]
    omega
  have covered : overwrite (before ++ chunk ++ tail) before.length written = before ++ written ++ tail := by
    rw [overwrite, List.append_assoc before chunk, List.take_left, ← List.drop_drop, List.drop_left, same, List.drop_left]
  have room : written.length ≤ (before ++ chunk).length ∧ (before ++ chunk).length ≤ (before ++ chunk ++ tail).length := by
    simp only [List.length_append]
    omega
  have length : (before ++ chunk).length = (before ++ written).length := by
    rw [List.length_append, List.length_append, same]
  dsimp only [writeBack, atPos]
  rw [if_pos room, start, covered, length]

end Steps

section Tree
variable {lookup : UInt32 → UInt32} {tree : ExprDesc} {before tail : Bytes} {entered : List Nat} {calls depth : Nat}

theorem remapTree_tag {tag : UInt8} (level : depth ≤ kMaxExprDescDepth) (enough : kMaxExprDescDepth + 2 ≤ calls + depth) :
    ∃ less, kMaxExprDescDepth + 2 ≤ less + (depth + 1) ∧
      remapTree lookup calls depth (atPos before (tag :: tail) entered) =
        remapTag lookup (remapTree lookup less (depth + 1)) tag (atPos (before ++ [tag]) tail (entered ++ [before.length])) := by
  obtain ⟨less, rfl⟩ : ∃ less, calls = less + 1 := ⟨calls - 1, by omega⟩
  refine ⟨less, by omega, ?_⟩
  have entering : enter (atPos before (tag :: tail) entered) = .ok ((), atPos before (tag :: tail) (entered ++ [before.length])) :=
    rfl
  have spelled : putWord 1 tag.toNat = [tag] := by simp [putWord]
  have tagged := @readWord_at before tail (entered ++ [before.length]) 1 tag.toNat tag.toNat_lt
  rw [spelled, List.singleton_append] at tagged
  rw [remapTree, if_neg (by omega), bind_eq entering, bind_eq tagged, UInt8.ofNat_toNat]

def Remaps (lookup : UInt32 → UInt32) (walk : Remap Unit) (tree : ExprDesc) : Prop :=
  ∀ before tail entered, walk (atPos before (tree.bytes ++ tail) entered) =
    .ok ((), atPos (before ++ (tree.mapStrings lookup).bytes) tail (entered ++ tree.nodes before.length))

theorem times_remaps {walk : Remap Unit} {args : List ExprDesc} (each : ∀ arg ∈ args, Remaps lookup walk arg)
    (sized : ∀ arg ∈ args, (arg.mapStrings lookup).bytes.length = arg.bytes.length) :
    ∃ units, times walk args.length (atPos before (allBytes args ++ tail) entered) =
      .ok (units, atPos (before ++ allBytes (mapAllStrings lookup args)) tail (entered ++ allNodes args before.length)) := by
  induction args generalizing before entered with
  | nil => exact ⟨[], by simp [times, allBytes, mapAllStrings, allNodes]; rfl⟩
  | cons arg args ih =>
    have first := each arg (.head _) before (allBytes args ++ tail) entered
    obtain ⟨units, others⟩ := @ih (before ++ (arg.mapStrings lookup).bytes) (entered ++ arg.nodes before.length)
      (fun other member => each other (.tail _ member)) (fun other member => sized other (.tail _ member))
    refine ⟨() :: units, ?_⟩
    rw [allBytes, List.append_assoc, List.length_cons, times, bind_eq first, bind_eq others]
    rw [mapAllStrings, allBytes, allNodes, List.length_append, sized arg (.head _), List.append_assoc, List.append_assoc]
    rfl

theorem byte_word (byte : UInt8) : putWord 1 byte.toNat = [byte] := by simp [putWord]

theorem remapCall_at {walk : Remap Unit} {key : Text} {paramCount : UInt32} {args : List ExprDesc} (short : key.length < 2 ^ 16)
    (few : args.length < 2 ^ 8) (each : ∀ arg ∈ args, Remaps lookup walk arg)
    (sized : ∀ arg ∈ args, (arg.mapStrings lookup).bytes.length = arg.bytes.length) :
    remapCall walk (atPos before (callHead key paramCount args.length ++ (allBytes args ++ tail)) entered) =
      .ok ((), atPos (before ++ callHead key paramCount args.length ++ allBytes (mapAllStrings lookup args)) tail
        (entered ++ allNodes args (before.length + (callHead key paramCount args.length).length))) := by
  have keyLen := @readWord_at before (key ++ (putWord 4 paramCount.toNat ++ (putWord 1 args.length ++ (allBytes args ++ tail))))
    entered 2 key.length short
  have skipped := @skipBytes_at (before ++ putWord 2 key.length) key
    (putWord 4 paramCount.toNat ++ (putWord 1 args.length ++ (allBytes args ++ tail))) entered
  have params := @readWord_at (before ++ putWord 2 key.length ++ key) (putWord 1 args.length ++ (allBytes args ++ tail)) entered 4
    paramCount.toNat paramCount.toNat_lt
  have argCount := @readWord_at (before ++ putWord 2 key.length ++ key ++ putWord 4 paramCount.toNat) (allBytes args ++ tail) entered 1
    args.length few
  have front : before ++ putWord 2 key.length ++ key ++ putWord 4 paramCount.toNat ++ putWord 1 args.length =
      before ++ callHead key paramCount args.length := by
    simp only [callHead, List.append_assoc]
  rw [front] at argCount
  obtain ⟨units, children⟩ := @times_remaps lookup (before ++ callHead key paramCount args.length) tail entered walk args each sized
  have shape : callHead key paramCount args.length ++ (allBytes args ++ tail) =
      putWord 2 key.length ++ (key ++ (putWord 4 paramCount.toNat ++ (putWord 1 args.length ++ (allBytes args ++ tail)))) := by
    simp only [callHead, List.append_assoc]
  rw [remapCall, shape, bind_eq keyLen, bind_eq skipped, bind_eq params, bind_eq argCount, bind_eq children, List.length_append]
  rfl

theorem remapTree_bytes (fits : Fits tree depth) (enough : kMaxExprDescDepth + 2 ≤ calls + depth) :
    Remaps lookup (remapTree lookup calls depth) tree := by
  intro before tail entered
  induction fits generalizing calls before tail entered with
  | @scalar tag payload depth level sized =>
    obtain ⟨less, _, step⟩ := @remapTree_tag lookup before (payload ++ tail) entered calls depth tag level enough
    have chunk := @readBytes_at (before ++ [tag]) payload tail (entered ++ [before.length])
    rw [bytes, List.cons_append, step, remapTag, sized]
    dsimp only
    rw [bind_eq chunk, mapStrings, bytes, nodes, List.append_assoc, List.singleton_append]
    rfl
  | @string idx depth level =>
    obtain ⟨less, _, step⟩ := @remapTree_tag lookup before (putWord 4 idx.toNat ++ tail) entered calls depth ExprTag.string level enough
    have word := @readWord_at (before ++ [ExprTag.string]) tail (entered ++ [before.length]) 4 idx.toNat idx.toNat_lt
    have written := @writeBack_at (before ++ [ExprTag.string]) (putWord 4 idx.toNat) tail (entered ++ [before.length])
      (putWord 4 (lookup idx).toNat) (by simp)
    rw [bytes, List.cons_append, step]
    change remapString lookup _ = _
    rw [remapString, bind_eq word, UInt32.ofNat_toNat, written, mapStrings, bytes, nodes, List.append_assoc,
      List.singleton_append]
  | @null depth level =>
    obtain ⟨less, _, step⟩ := @remapTree_tag lookup before tail entered calls depth ExprTag.null level enough
    rw [bytes, List.singleton_append, step]
    rfl
  | @formalRef idx depth level =>
    obtain ⟨less, _, step⟩ := @remapTree_tag lookup before ([idx] ++ tail) entered calls depth ExprTag.formalRef level enough
    have chunk := @readBytes_at (before ++ [ExprTag.formalRef]) [idx] tail (entered ++ [before.length])
    rw [bytes, List.cons_append, step]
    change (readBytes [idx].length >>= _) _ = _
    rw [bind_eq chunk, mapStrings, bytes, nodes, List.append_assoc]
    rfl
  | @neg operand depth level nested ih =>
    obtain ⟨less, more, step⟩ := @remapTree_tag lookup before (operand.bytes ++ tail) entered calls depth ExprTag.neg level enough
    have child := ih more (before ++ [ExprTag.neg]) tail (entered ++ [before.length])
    rw [bytes, List.cons_append, step]
    change remapTree lookup less (depth + 1) _ = _
    rw [child, mapStrings, bytes, nodes, List.length_append, List.append_assoc, List.append_assoc]
    rfl
  | @binary op left right depth level known first second ihLeft ihRight =>
    obtain ⟨less, more, step⟩ := @remapTree_tag lookup before (op :: (left.bytes ++ right.bytes) ++ tail) entered calls depth
      ExprTag.binary level enough
    have operator := @readWord_at (before ++ [ExprTag.binary]) (left.bytes ++ (right.bytes ++ tail)) (entered ++ [before.length]) 1
      op.toNat op.toNat_lt
    have one := ihLeft more (before ++ [ExprTag.binary] ++ [op]) (right.bytes ++ tail) (entered ++ [before.length])
    have two := ihRight more (before ++ [ExprTag.binary] ++ [op] ++ (left.mapStrings lookup).bytes) tail
      (entered ++ [before.length] ++ left.nodes (before ++ [ExprTag.binary] ++ [op]).length)
    have place : (before ++ [ExprTag.binary] ++ [op]).length = before.length + 2 := by simp
    rw [@List.length_append _ (before ++ [ExprTag.binary] ++ [op]), bytes_length_map first, place] at two
    rw [place] at one
    have allowed : ¬ lastBinaryOp.toNat < op.toNat := Nat.not_lt.mpr known
    rw [byte_word, List.singleton_append] at operator
    rw [bytes, List.cons_append, step, List.cons_append, List.append_assoc]
    change (readWord 1 >>= _) _ = _
    rw [bind_eq operator, if_neg allowed, bind_eq one, two, mapStrings, bytes, nodes]
    simp only [List.append_assoc, List.cons_append, List.nil_append]
  | @call key paramCount args depth level short few nested ih =>
    obtain ⟨less, more, step⟩ := @remapTree_tag lookup before (callHead key paramCount args.length ++ allBytes args ++ tail) entered
      calls depth ExprTag.call level enough
    have inner := @remapCall_at lookup (before ++ [ExprTag.call]) tail (entered ++ [before.length])
      (remapTree lookup less (depth + 1)) key paramCount args short few (fun arg member => ih arg member more)
      fun arg member => bytes_length_map (nested arg member)
    rw [bytes, List.cons_append, step, List.append_assoc]
    change remapCall _ _ = _
    rw [inner, mapStrings, bytes, nodes, mapAllStrings_length, List.length_append]
    simp only [List.append_assoc, List.cons_append, List.nil_append, List.length_singleton]

end Tree

structure Patched (lookup : UInt32 → UInt32) (pos : Nat) (old new : Bytes) (slots : List Nat) : Prop where
  length_eq : new.length = old.length
  kept : ∀ i, (∀ slot ∈ slots, pos + i < slot ∨ slot + 4 ≤ pos + i) → new[i]? = old[i]?
  mapped : ∀ slot ∈ slots, ∃ k, slot = pos + k ∧ Inside old k 4 ∧
    wordAt 4 new k = (lookup (UInt32.ofNat (wordAt 4 old k))).toNat

namespace Patched
variable {lookup : UInt32 → UInt32} {pos : Nat} {old new old' new' : Bytes} {slots slots' : List Nat}

theorem same (bytes : Bytes) : Patched lookup pos bytes bytes [] := ⟨rfl, fun _ _ => rfl, nofun⟩

theorem append (front : Patched lookup pos old new slots) (back : Patched lookup (pos + old.length) old' new' slots') :
    Patched lookup pos (old ++ old') (new ++ new') (slots ++ slots') := by
  have fronts := front.length_eq
  refine ⟨?_, ?_, ?_⟩
  · rw [List.length_append, List.length_append, fronts, back.length_eq]
  · intro i outside
    rcases Nat.lt_or_ge i old.length with inFront | inBack
    · rw [List.getElem?_append_left (by omega), List.getElem?_append_left inFront]
      exact front.kept i fun slot member => outside slot (List.mem_append_left _ member)
    · rw [List.getElem?_append_right (by omega), List.getElem?_append_right inBack, fronts]
      refine back.kept (i - old.length) fun slot member => ?_
      have := outside slot (List.mem_append_right _ member)
      omega
  · intro slot member
    rcases List.mem_append.mp member with inFront | inBack
    · obtain ⟨k, rfl, inside, word⟩ := front.mapped slot inFront
      have insideNew : Inside new k 4 := by
        unfold Inside at inside ⊢
        omega
      refine ⟨k, rfl, ?_, ?_⟩
      · unfold Inside at inside ⊢
        rw [List.length_append]
        omega
      · rw [wordAt_append_left insideNew, wordAt_append_left inside, word]
    · obtain ⟨k, rfl, inside, word⟩ := back.mapped slot inBack
      refine ⟨old.length + k, Nat.add_assoc .., ?_, ?_⟩
      · unfold Inside at inside ⊢
        rw [List.length_append]
        omega
      · rw [wordAt_append_right, ← fronts, wordAt_append_right, word]

theorem string (idx : UInt32) : Patched lookup pos (putWord 4 idx.toNat) (putWord 4 (lookup idx).toNat) [pos] := by
  have read (idx : UInt32) : wordAt 4 (putWord 4 idx.toNat) 0 = idx.toNat := by
    have follows := Follows.start (putWord 4 idx.toNat ++ [])
    have word := follows.wordAt_eq idx.toNat_lt
    rwa [List.append_nil] at word
  refine ⟨by rw [putWord_length, putWord_length], ?_, ?_⟩
  · intro i outside
    have beyond : 4 ≤ i := by
      have := outside pos (List.mem_singleton_self pos)
      omega
    rw [List.getElem?_eq_none (by simpa using beyond), List.getElem?_eq_none (by simpa using beyond)]
  · intro slot member
    refine ⟨0, List.mem_singleton.mp member, ?_, ?_⟩
    · rw [Inside, putWord_length]
    · rw [read, read, UInt32.ofNat_toNat]

end Patched

section Patches
variable {lookup : UInt32 → UInt32} {tree : ExprDesc} {args : List ExprDesc} {depth pos : Nat}

theorem allBytes_patched (each : ∀ arg ∈ args, ∀ pos, Patched lookup pos arg.bytes (arg.mapStrings lookup).bytes (arg.stringSlots pos)) :
    Patched lookup pos (allBytes args) (allBytes (mapAllStrings lookup args)) (allStringSlots args pos) := by
  induction args generalizing pos with
  | nil => exact .same []
  | cons arg args ih => exact (each arg (.head _) pos).append (ih fun other member => each other (.tail _ member))

theorem bytes_patched (fits : Fits tree depth) :
    Patched lookup pos tree.bytes (tree.mapStrings lookup).bytes (tree.stringSlots pos) := by
  induction fits generalizing pos with
  | scalar | null | formalRef => exact .same _
  | @string idx => exact (Patched.same [ExprTag.string]).append (.string idx)
  | neg _ _ ih => exact (Patched.same [ExprTag.neg]).append ih
  | @binary op left right _ _ _ _ _ ihLeft ihRight =>
    exact (Patched.same [ExprTag.binary, op]).append (ihLeft.append ihRight)
  | @call key paramCount args _ _ _ _ _ ih =>
    rw [mapStrings, bytes, bytes, mapAllStrings_length]
    exact (Patched.same [ExprTag.call]).append ((Patched.same (callHead key paramCount args.length)).append
      (allBytes_patched fun arg member pos => ih arg member))

end Patches

theorem bytes_ne_nil (tree : ExprDesc) : tree.bytes ≠ [] := by
  cases tree <;> exact List.cons_ne_nil _ _

theorem remapStream_bytes {lookup : UInt32 → UInt32} {tree : ExprDesc} (fits : Fits tree 0) :
    remapStream lookup tree.bytes = .ok ⟨(tree.mapStrings lookup).bytes, tree.bytes.length, tree.nodes 0⟩ := by
  have remaps : Remaps lookup (remapTree lookup (kMaxExprDescDepth + 2) 0) tree := remapTree_bytes fits (Nat.le_refl _)
  have walked := remaps [] [] []
  have ended : (tree.mapStrings lookup).bytes.length = tree.bytes.length := bytes_length_map fits
  simp only [atPos, List.nil_append, List.append_nil, List.length_nil] at walked
  rw [remapStream, if_neg (bytes_ne_nil tree), walked, ended]
  change (if _ then _ else _) = _
  rw [if_pos ended.symm]

section Guarded
variable {lookup : UInt32 → UInt32} {size : Nat}

def InBuffer (size : Nat) (state : RemapState) : Prop := state.offset ≤ state.bytes.length ∧ state.bytes.length = size

theorem readBytes_safe (count : Nat) : Safe (InBuffer size) (readBytes count) := by
  intro state ⟨inside, sized⟩
  apply (read_ends inside).bind
  rintro ⟨chunk, last⟩ ⟨-, fitting⟩
  exact .done ⟨fitting, sized⟩

theorem readWord_safe (width : Nat) : Safe (InBuffer size) (readWord width) := (readBytes_safe width).bind fun _ => .pure _

theorem skipBytes_safe (count : Nat) : Safe (InBuffer size) (skipBytes count) := by
  intro state ⟨inside, sized⟩
  apply (skip_ends inside).bind
  intro last fitting
  exact .done ⟨fitting, sized⟩

theorem writeBack_ends {chunk : Bytes} {state : RemapState} (inside : InBuffer size state) (room : chunk.length ≤ state.offset) :
    Ends (fun result => InBuffer size result.2) (writeBack chunk state) := by
  obtain ⟨fitting, sized⟩ := inside
  have covered : Inside state.bytes (state.offset - chunk.length) chunk.length := by
    unfold Inside
    omega
  have length := overwrite_length covered
  rw [writeBack, if_pos ⟨room, fitting⟩]
  exact .done ⟨fitting.trans_eq length.symm, length.trans sized⟩

theorem remapString_safe : Safe (InBuffer size) (remapString lookup) := by
  intro state ⟨inside, sized⟩
  have word : Ends (fun result => InBuffer size result.2 ∧ 4 ≤ result.2.offset) (readWord 4 state) := by
    have taken : Ends (fun result => InBuffer size result.2 ∧ 4 ≤ result.2.offset) (readBytes 4 state) := by
      apply (read_ends inside).bind
      rintro ⟨chunk, last⟩ ⟨rfl, fitting⟩
      exact .done ⟨⟨fitting, sized⟩, Nat.le_add_left ..⟩
    apply taken.bind
    intro result held
    exact .done held
  apply word.bind
  intro result ⟨held, room⟩
  exact writeBack_ends held (by rwa [putWord_length])

theorem remapCall_safe {child : Remap Unit} (safe : Safe (InBuffer size) child) : Safe (InBuffer size) (remapCall child) := by
  apply (readWord_safe 2).bind
  intro keyLen
  apply (skipBytes_safe keyLen).bind
  intro _
  apply (readWord_safe 4).bind
  intro _
  apply (readWord_safe 1).bind
  intro argCount
  exact (safe.times argCount).bind fun _ => .pure _

theorem remapTag_safe {child : Remap Unit} (safe : Safe (InBuffer size) child) (tag : UInt8) :
    Safe (InBuffer size) (remapTag lookup child tag) := by
  unfold remapTag
  cases payloadSize tag with
  | some count => exact (readBytes_safe count).bind fun _ => .pure _
  | none =>
    refine .ite (fun _ => remapString_safe) fun _ => .ite (fun _ => .pure _) fun _ => .ite (fun _ => ?_) fun _ =>
      .ite (fun _ => safe) fun _ => .ite (fun _ => ?_) fun _ => .ite (fun _ => remapCall_safe safe) fun _ => .refuse _
    · exact (readBytes_safe 1).bind fun _ => .pure _
    · exact (readWord_safe 1).bind fun _ => .ite (fun _ => .refuse _) fun _ => safe.bind fun _ => safe

theorem remapTree_safe {calls depth : Nat} (enough : kMaxExprDescDepth + 2 ≤ calls + depth) (shallow : depth ≤ kMaxExprDescDepth + 1) :
    Safe (InBuffer size) (remapTree lookup calls depth) := by
  induction calls generalizing depth with
  | zero => omega
  | succ calls ih =>
    refine .ite (fun _ => .refuse _) fun level => ?_
    have entering : Safe (InBuffer size) enter := fun _ held => .done held
    apply entering.bind
    intro _
    apply (readWord_safe 1).bind
    intro tag
    exact remapTag_safe (ih (by omega) (by omega)) _

theorem remapStream_guarded (lookup : UInt32 → UInt32) (stream : Bytes) :
    Ends (fun state => state.offset = state.bytes.length ∧ state.bytes.length = stream.length) (remapStream lookup stream) := by
  refine .ite (fun empty => .done ⟨rfl, by rw [empty]⟩) fun _ => ?_
  have safe : Safe (InBuffer stream.length) (remapTree lookup (kMaxExprDescDepth + 2) 0) :=
    remapTree_safe (Nat.le_refl _) (Nat.zero_le _)
  apply (safe ⟨stream, 0, []⟩ ⟨Nat.zero_le _, rfl⟩).bind
  intro ⟨_, state⟩ ⟨_, sized⟩
  exact .ite (fun ended => .done ⟨ended, sized⟩) fun _ => .refused ()

end Guarded

end ExprDesc

end NLang.Linker
