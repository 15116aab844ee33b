import NLang.Backend.DefaultExprs

/-!
# The codec of default expressions

What the encoder writes is a tree of the grammar. The rebuild makes the same expression of it where every call finds its
callee's record first, every referenced formal is among the first 256, and every string is at its index.
-/

namespace NLang.Backend.Described
open NLang.Library NLang.Library.Words NLang.Library.Walks NLang.Vm NLang.Image NLang.Compiler NLang.Linker
open NLang.Backend.Folded (Literal ScalarLiteral code)

inductive Threads {α β σ : Type} (Step : α → σ → β → σ → Prop) : List α → σ → List β → σ → Prop where
  | nil (state : σ) : Threads Step [] state [] state
  | cons {item : α} {items : List α} {result : β} {results : List β} {state middle last : σ}
      (one : Step item state result middle) (rest : Threads Step items middle results last) :
      Threads Step (item :: items) state (result :: results) last

inductive Describes (build : Build) (modulePath : Text) (formals : List Nat) :
    Bool → SnExpression → List Text → ExprDesc → List Text → Prop where
  | null {allowCall : Bool} {pool : List Text} : Describes build modulePath formals allowCall (.literal .null) pool .null pool
  | scalar {allowCall : Bool} {pool : List Text} {lit : ScalarLiteral} (described : lit.row ∈ describedRows) :
      Describes build modulePath formals allowCall (.literal (.scalar lit)) pool
        (.scalar (code lit.row) (putWord lit.row.slotWidth lit.bits)) pool
  | string {allowCall : Bool} {pool last : List Text} {content : Text} {idx : Nat}
      (added : addStringConstant content pool = (some idx, last)) :
      Describes build modulePath formals allowCall (.literal (.string content)) pool (.string (UInt32.ofNat idx)) last
  | formal {allowCall : Bool} {pool : List Text} {field i : Nat} (found : formals.findIdx? (· = field) = some i) :
      Describes build modulePath formals allowCall (.identifier (some field)) pool (.formalRef (UInt8.ofNat i)) pool
  | neg {allowCall : Bool} {pool last : List Text} {operand : SnExpression} {inner : ExprDesc}
      (nested : Describes build modulePath formals allowCall operand pool inner last) :
      Describes build modulePath formals allowCall (.neg operand) pool (.neg inner) last
  | binary {allowCall : Bool} {pool middle last : List Text} {op : BinaryOp} {operator : UInt8} {left right : SnExpression}
      {first second : ExprDesc} (coded : opCode op = some operator)
      (one : Describes build modulePath formals allowCall left pool first middle)
      (two : Describes build modulePath formals allowCall right middle second last) :
      Describes build modulePath formals allowCall (.binary op left right) pool (.binary operator first second) last
  | call {pool last : List Text} {callee : FunctionEntry} {params : List SnExpression} {args : List ExprDesc} {head : Bytes}
      (heading : encodeCallHead build modulePath callee params.length = some head)
      (each : Threads (Describes build modulePath formals false) params pool args last) :
      Describes build modulePath formals true (.invoke (some callee) params) pool
        (.call (key build callee) (UInt32.ofNat params.length) args) last

section Induction
variable {motive : SnExpression → Prop}

@[elab_as_elim]
theorem SnExpression.induct (literal : ∀ lit, motive (.literal lit)) (identifier : ∀ field, motive (.identifier field))
    (neg : ∀ operand, motive operand → motive (.neg operand)) (logicalNot : ∀ operand, motive (.logicalNot operand))
    (binary : ∀ op left right, motive left → motive right → motive (.binary op left right))
    (invoke : ∀ callee params, (∀ param ∈ params, motive param) → motive (.invoke callee params)) (other : motive .other) :
    ∀ expr, motive expr
  | .literal lit => literal lit
  | .identifier field => identifier field
  | .neg operand => neg operand (induct literal identifier neg logicalNot binary invoke other operand)
  | .logicalNot operand => logicalNot operand
  | .binary op left right => binary op left right (induct literal identifier neg logicalNot binary invoke other left)
      (induct literal identifier neg logicalNot binary invoke other right)
  | .invoke callee params => invoke callee params fun param _ => induct literal identifier neg logicalNot binary invoke other param
  | .other => other

end Induction

section Pool
variable {pool last : List Text} {content : Text} {idx : Nat}

def ConstantKept (pool : List Text) (content : Text) : Prop :=
  pool.length < 2 ^ 16 ∨ content ∈ pool.take (pool.length % 2 ^ 16 + 1)

theorem addStringConstant_place (added : addStringConstant content pool = (some idx, last)) :
    pool <+: last ∧ idx < 2 ^ 16 ∧ idx < last.length ∧ (last[idx]? = some content ↔ ConstantKept pool content) := by
  unfold addStringConstant at added
  split at added
  · rename_i existing found
    cases added
    obtain ⟨inside, same, -⟩ := List.findIdx?_eq_some_iff_getElem.mp found
    rw [List.length_take] at inside
    rw [List.getElem_take] at same
    have here : pool[idx]? = some content := by
      rw [List.getElem?_eq_getElem (by omega), of_decide_eq_true same]
    have small : pool.length % 2 ^ 16 < 2 ^ 16 := Nat.mod_lt _ (by decide)
    refine ⟨List.prefix_rfl, by omega, by omega, ⟨fun _ => .inr ?_, fun _ => here⟩⟩
    apply List.mem_of_getElem? (i := idx)
    rw [List.getElem?_take_of_lt (by omega), here]
  · rename_i absent
    cases added
    have missing : content ∉ pool.take (pool.length % 2 ^ 16) := by
      intro member
      exact of_decide_eq_false (List.findIdx?_eq_none_iff.mp absent content member) rfl
    have small : pool.length % 2 ^ 16 < 2 ^ 16 := Nat.mod_lt _ (by decide)
    have bound := Nat.mod_le pool.length (2 ^ 16)
    refine ⟨List.prefix_append .., small, by rw [List.length_append, List.length_singleton]; omega, ?_⟩
    unfold ConstantKept
    rcases Nat.lt_or_ge pool.length (2 ^ 16) with few | many
    · rw [Nat.mod_eq_of_lt few, List.getElem?_concat_length]
      exact ⟨fun _ => .inl few, fun _ => rfl⟩
    · rw [List.getElem?_append_left (by omega), List.take_add_one, List.mem_append]
      cases here : pool[pool.length % 2 ^ 16]? with
      | none => exact absurd (List.getElem?_eq_none_iff.mp here) (by omega)
      | some found =>
        constructor
        · intro same
          cases same
          exact .inr (.inr (List.mem_singleton_self content))
        · rintro (few | early | same)
          · omega
          · exact absurd early missing
          · rw [List.mem_singleton.mp same]

end Pool

section Encode
variable {α β : Type} {first : Encode α} {next : α → Encode β} {pool last : List Text} {value : β}

theorem encode_bind : (first >>= next) pool = (some value, last) ↔
    ∃ result middle, first pool = (some result, middle) ∧ next result middle = (some value, last) := by
  have unfolded : (first >>= next) pool = match first pool with
      | (some result, middle) => next result middle
      | (none, middle) => (none, middle) := by
    change (match (first pool).1 with | some a => next a | none => pure none : StateM (List Text) (Option β)) (first pool).2 = _
    rcases first pool with ⟨_ | result, middle⟩ <;> rfl
  rw [unfolded]
  rcases first pool with ⟨_ | result, middle⟩
  · exact ⟨nofun, fun ⟨_, _, same, _⟩ => nomatch same⟩
  · refine ⟨fun done => ⟨_, _, rfl, done⟩, fun ⟨_, _, same, done⟩ => ?_⟩
    cases same
    exact done

theorem encode_pure {given : β} : (pure given : Encode β) pool = (some value, last) ↔ given = value ∧ pool = last := by
  refine ⟨fun same => ?_, fun ⟨same, kept⟩ => by rw [same, kept]; rfl⟩
  cases same
  exact ⟨rfl, rfl⟩

theorem encode_failure : ¬ (failure : Encode β) pool = (some value, last) := nofun

end Encode

section Written
variable {build : Build} {modulePath : Text} {formals : List Nat} {allowCall : Bool} {pool last : List Text} {depth : Nat}

theorem encodeLiteralDesc_describes {lit : Literal} {bytes : Bytes} (level : depth ≤ kMaxExprDescDepth)
    (done : encodeLiteralDesc lit pool = (some bytes, last)) : ∃ tree,
      Describes build modulePath formals allowCall (.literal lit) pool tree last ∧ tree.bytes = bytes ∧ tree.Fits depth := by
  cases lit with
  | null =>
    obtain ⟨rfl, rfl⟩ := encode_pure.mp done
    exact ⟨.null, .null, rfl, .null level⟩
  | scalar lit =>
    by_cases described : lit.row ∈ describedRows
    · rw [encodeLiteralDesc, if_pos described] at done
      obtain ⟨rfl, rfl⟩ := encode_pure.mp done
      refine ⟨_, .scalar described, rfl, .scalar level ?_⟩
      have sized : ∀ row ∈ describedRows, payloadSize (code row) = some row.slotWidth := by decide
      rw [sized _ described, putWord_length]
    · rw [encodeLiteralDesc, if_neg described] at done
      exact absurd done encode_failure
  | string content =>
    obtain ⟨idx, middle, added, done⟩ := encode_bind.mp done
    obtain ⟨rfl, rfl⟩ := encode_pure.mp done
    refine ⟨_, .string added, ?_, .string level⟩
    have small := (addStringConstant_place added).2.1
    rw [ExprDesc.bytes, UInt32.toNat_ofNat', Nat.mod_eq_of_lt (by omega)]

theorem encodeArgs_describes {params : List SnExpression} {bytes : Bytes}
    (each : ∀ param ∈ params, ∀ pool bytes last, encodeExprDesc build modulePath formals false depth param pool = (some bytes, last) →
      bytes.length < 2 ^ 16 → ∃ tree, Describes build modulePath formals false param pool tree last ∧ tree.bytes = bytes ∧ tree.Fits depth)
    (short : bytes.length < 2 ^ 16) (done : encodeArgs build modulePath formals depth params pool = (some bytes, last)) :
    ∃ trees, Threads (Describes build modulePath formals false) params pool trees last ∧ ExprDesc.allBytes trees = bytes ∧
      ∀ tree ∈ trees, tree.Fits depth := by
  induction params generalizing pool bytes with
  | nil =>
    obtain ⟨rfl, rfl⟩ := encode_pure.mp (by rwa [encodeArgs] at done)
    exact ⟨[], .nil pool, rfl, nofun⟩
  | cons param params ih =>
    rw [encodeArgs] at done
    obtain ⟨first, middle, one, rest⟩ := encode_bind.mp done
    obtain ⟨others, _, more, ended⟩ := encode_bind.mp rest
    obtain ⟨rfl, rfl⟩ := encode_pure.mp ended
    rw [List.length_append] at short
    obtain ⟨tree, describes, rfl, fits⟩ := each param (.head _) pool first middle one (by omega)
    obtain ⟨trees, threads, rfl, all_fit⟩ := ih (fun param' member => each param' (.tail _ member)) (by omega) more
    refine ⟨tree :: trees, .cons describes threads, rfl, ?_⟩
    rintro nested (_ | ⟨_, member⟩)
    · exact fits
    · exact all_fit nested member

theorem threads_length {σ : Type} {Step : SnExpression → σ → ExprDesc → σ → Prop} {params : List SnExpression} {trees : List ExprDesc}
    {state final : σ} (threads : Threads Step params state trees final) : trees.length = params.length := by
  induction threads with
  | nil => rfl
  | cons _ _ ih => rw [List.length_cons, List.length_cons, ih]

theorem encodeExprDesc_level {expr : SnExpression} {bytes : Bytes}
    (done : encodeExprDesc build modulePath formals allowCall depth expr pool = (some bytes, last)) :
    ¬ kMaxExprDescDepth < depth := by
  intro deep
  unfold encodeExprDesc at done
  rw [if_pos deep] at done
  exact encode_failure done

theorem encodeCallHead_bytes {callee : FunctionEntry} {argCount : Nat} {head : Bytes}
    (heading : encodeCallHead build modulePath callee argCount = some head) :
    argCount < 2 ^ 8 ∧ head = ExprTag.call :: ExprDesc.callHead (key build callee) (UInt32.ofNat argCount) argCount := by
  unfold encodeCallHead at heading
  dsimp only at heading
  split at heading
  · cases heading
  · split at heading
    · cases heading
    · split at heading
      · cases heading
      · cases heading
        refine ⟨by omega, ?_⟩
        rw [ExprDesc.callHead, UInt32.toNat_ofNat', Nat.mod_eq_of_lt (by omega)]

theorem opCode_known {op : BinaryOp} {operator : UInt8} (coded : opCode op = some operator) : operator ≤ lastBinaryOp := by
  cases op <;> cases coded <;> decide

theorem encodeExprDesc_describes {expr : SnExpression} {bytes : Bytes} (short : bytes.length < 2 ^ 16)
    (done : encodeExprDesc build modulePath formals allowCall depth expr pool = (some bytes, last)) : ∃ tree,
      Describes build modulePath formals allowCall expr pool tree last ∧ tree.bytes = bytes ∧ tree.Fits depth := by
  induction expr using SnExpression.induct generalizing allowCall depth pool bytes last with
  | literal lit =>
    have level := encodeExprDesc_level done
    unfold encodeExprDesc at done
    rw [if_neg level] at done
    exact encodeLiteralDesc_describes (Nat.not_lt.mp level) done
  | identifier field =>
    have level := encodeExprDesc_level done
    unfold encodeExprDesc at done
    rw [if_neg level] at done
    cases field with
    | none => exact absurd done encode_failure
    | some field =>
      cases found : formals.findIdx? (· = field) with
      | none =>
        dsimp only at done
        rw [found] at done
        exact absurd done encode_failure
      | some i =>
        dsimp only at done
        rw [found] at done
        obtain ⟨rfl, rfl⟩ := encode_pure.mp done
        exact ⟨_, .formal found, rfl, .formalRef (Nat.not_lt.mp level)⟩
  | neg operand ih =>
    have level := encodeExprDesc_level done
    unfold encodeExprDesc at done
    rw [if_neg level] at done
    obtain ⟨inner, middle, one, ended⟩ := encode_bind.mp done
    obtain ⟨rfl, rfl⟩ := encode_pure.mp ended
    obtain ⟨tree, describes, rfl, fits⟩ := ih (Nat.lt_of_succ_lt short) one
    exact ⟨_, .neg describes, rfl, .neg (Nat.not_lt.mp level) fits⟩
  | logicalNot operand =>
    have level := encodeExprDesc_level done
    unfold encodeExprDesc at done
    rw [if_neg level] at done
    exact absurd done encode_failure
  | binary op left right ihLeft ihRight =>
    have level := encodeExprDesc_level done
    unfold encodeExprDesc at done
    rw [if_neg level] at done
    cases coded : opCode op with
    | none =>
      dsimp only at done
      rw [coded] at done
      exact absurd done encode_failure
    | some operator =>
      dsimp only at done
      rw [coded] at done
      obtain ⟨first, middle, one, rest⟩ := encode_bind.mp done
      obtain ⟨second, _, two, ended⟩ := encode_bind.mp rest
      obtain ⟨rfl, rfl⟩ := encode_pure.mp ended
      simp only [List.length_cons, List.length_append] at short
      obtain ⟨leftTree, describesLeft, rfl, fitsLeft⟩ := ihLeft (by omega) one
      obtain ⟨rightTree, describesRight, rfl, fitsRight⟩ := ihRight (by omega) two
      exact ⟨_, .binary coded describesLeft describesRight, rfl, .binary (Nat.not_lt.mp level) (opCode_known coded) fitsLeft fitsRight⟩
  | invoke callee params ih =>
    have level := encodeExprDesc_level done
    unfold encodeExprDesc at done
    rw [if_neg level] at done
    cases callee with
    | none => exact absurd done encode_failure
    | some callee =>
      cases allowCall with
      | false => exact absurd done encode_failure
      | true =>
        cases heading : encodeCallHead build modulePath callee params.length with
        | none =>
          dsimp only at done
          rw [if_pos rfl, heading] at done
          exact absurd done encode_failure
        | some head =>
          dsimp only at done
          rw [if_pos rfl, heading] at done
          obtain ⟨argBytes, middle, args, ended⟩ := encode_bind.mp done
          obtain ⟨rfl, rfl⟩ := encode_pure.mp ended
          rw [List.length_append] at short
          obtain ⟨trees, threads, rfl, all_fit⟩ := encodeArgs_describes
            (fun param member pool bytes last run small => ih param member small run) (by omega) args
          have count := threads_length threads
          obtain ⟨few, written⟩ := encodeCallHead_bytes heading
          have same : (ExprDesc.call (key build callee) (UInt32.ofNat params.length) trees).bytes =
              head ++ ExprDesc.allBytes trees := by
            rw [ExprDesc.bytes, written, count]
            rfl
          refine ⟨_, .call heading threads, same, .call (Nat.not_lt.mp level) ?_ (by omega) all_fit⟩
          rw [written] at short
          simp only [ExprDesc.callHead, List.length_cons, List.length_append] at short
          omega
  | other =>
    have level := encodeExprDesc_level done
    unfold encodeExprDesc at done
    rw [if_neg level] at done
    exact absurd done encode_failure

theorem encodeDefaultExpr_describes {expr : SnExpression} {dv out : DefaultValueDesc}
    (done : encodeDefaultExpr build modulePath formals expr dv pool = (some out, last)) : ∃ tree,
      Describes build modulePath formals true expr pool tree last ∧ tree.bytes = out.exprBytes ∧ tree.Fits 0 := by
  unfold encodeDefaultExpr at done
  split at done
  · rename_i bytes final written
    split at done
    · cases done
    · rename_i notLong
      cases done
      have short : bytes.length < 2 ^ 16 := (Nat.not_lt.mp notLong).trans_lt (by decide)
      exact encodeExprDesc_describes short written
  · cases done

end Written

section Rebuild
variable (cm : CompiledModule) (stubFormalNames : List Text)

mutual

def rebuild : ExprDesc → Except SynthError SynthExpr
  | .scalar tag payload =>
    match scalarRow tag with
    | some row => .ok (.literal (.scalar (scalarOf row (wordOf payload))))
    | none => .error .unknownNodeTag
  | .string idx => stringConstant cm idx.toNat
  | .null => .ok (.literal .null)
  | .formalRef idx => formalName stubFormalNames idx.toNat
  | .neg operand => do
      let inner ← rebuild operand
      return .neg inner
  | .binary op left right =>
    match kOps[op.toNat]? with
    | none => .error .badBinaryOperator
    | some op => do
        let first ← rebuild left
        let second ← rebuild right
        return .binary op first second
  | .call key paramCount args =>
    if key = [] then .error .truncatedCall
    else do
      let (chain, leaf) ← callTarget cm key paramCount.toNat args.length
      let rebuilt ← rebuildAll args
      return .moduleCall chain leaf rebuilt

def rebuildAll : List ExprDesc → Except SynthError (List SynthExpr)
  | [] => .ok []
  | arg :: args => do
      let first ← rebuild arg
      let others ← rebuildAll args
      return first :: others

end

variable {cm stubFormalNames} {data before chunk tail : Bytes} {tree : ExprDesc} {reason : SynthError}

theorem take_at (here : data = before ++ (chunk ++ tail)) :
    read data reason chunk.length before.length = .ok (chunk, (before ++ chunk).length) := by
  have behind : data.drop before.length = chunk ++ tail := by rw [here, List.drop_left]
  rw [read_eq behind (by rw [here]; simp), List.length_append]

theorem word_at {width value : Nat} (small : value < 256 ^ width) (here : data = before ++ (putWord width value ++ tail)) :
    word data width reason before.length = .ok (value, (before ++ putWord width value).length) := by
  have chunk := @take_at data before (putWord width value) tail reason here
  rw [putWord_length] at chunk
  rw [word, bind_eq chunk, wordOf_putWord, Nat.mod_eq_of_lt small]
  rfl

def RebuildsAt (data : Bytes) (walk : Rebuild SynthExpr) (tree : ExprDesc) (result : Except SynthError SynthExpr) : Prop :=
  ∀ before tail, data = before ++ (tree.bytes ++ tail) → walk before.length = check result (before ++ tree.bytes).length

theorem times_rebuilds {walk : Rebuild SynthExpr} {args : List ExprDesc} (here : data = before ++ (ExprDesc.allBytes args ++ tail))
    (each : ∀ arg ∈ args, RebuildsAt data walk arg (rebuild cm stubFormalNames arg)) :
    times walk args.length before.length = check (rebuildAll cm stubFormalNames args) (before ++ ExprDesc.allBytes args).length := by
  induction args generalizing before with
  | nil =>
    rw [ExprDesc.allBytes, List.append_nil]
    rfl
  | cons arg args ih =>
    rw [ExprDesc.allBytes, List.append_assoc] at here
    have first := each arg (.head _) before (ExprDesc.allBytes args ++ tail) here
    have next : data = before ++ arg.bytes ++ (ExprDesc.allBytes args ++ tail) := by rw [here, List.append_assoc]
    have others := ih next fun other member => each other (.tail _ member)
    rw [List.length_cons, times, rebuildAll, ExprDesc.allBytes, ← List.append_assoc]
    cases made : rebuild cm stubFormalNames arg with
    | error reason =>
      rw [made] at first
      exact bind_refused first
    | ok value =>
      rw [made] at first
      rw [bind_eq first]
      cases more : rebuildAll cm stubFormalNames args with
      | error reason =>
        rw [more] at others
        exact bind_refused others
      | ok values =>
        rw [more] at others
        exact bind_eq others

theorem scalarRow_of_size {tag : UInt8} {size : Nat} (sized : payloadSize tag = some size) :
    ∃ row, scalarRow tag = some row ∧ row.slotWidth = size := by
  unfold payloadSize at sized
  split at sized
  · rename_i tags
    cases sized
    rcases tags with rfl | rfl
    · exact ⟨.int32, by decide, rfl⟩
    · exact ⟨.float, by decide, rfl⟩
  · split at sized
    · rename_i tags
      cases sized
      rcases tags with rfl | rfl | rfl
      · exact ⟨.long, by decide, rfl⟩
      · exact ⟨.ulong, by decide, rfl⟩
      · exact ⟨.double, by decide, rfl⟩
    · cases sized

theorem kOps_of_known {op : UInt8} (known : op ≤ lastBinaryOp) : ∃ operator, kOps[op.toNat]? = some operator := by
  have inside : op.toNat < kOps.length := Nat.lt_succ_of_le known
  exact ⟨_, List.getElem?_eq_getElem inside⟩

theorem synthExprDescNode_tag {calls depth : Nat} {tag : UInt8} (level : depth ≤ kMaxExprDescDepth)
    (enough : kMaxExprDescDepth + 2 ≤ calls + depth) (here : data = before ++ (tag :: tail)) :
    ∃ less, kMaxExprDescDepth + 2 ≤ less + (depth + 1) ∧ synthExprDescNode cm stubFormalNames data calls depth before.length =
      synthTag cm stubFormalNames data (synthExprDescNode cm stubFormalNames data less (depth + 1)) tag (before ++ [tag]).length := by
  obtain ⟨less, rfl⟩ : ∃ less, calls = less + 1 := ⟨calls - 1, by omega⟩
  refine ⟨less, by omega, ?_⟩
  have spelled : data = before ++ (putWord 1 tag.toNat ++ tail) := by
    rw [ExprDesc.byte_word]
    exact here
  have tagged := @word_at data before tail .truncatedStream 1 tag.toNat tag.toNat_lt spelled
  rw [ExprDesc.byte_word] at tagged
  rw [synthExprDescNode, if_neg (by omega), bind_eq tagged, UInt8.ofNat_toNat]

variable {depth calls : Nat}

theorem check_ok {α β : Type} {first : Rebuild α} {next : α → Rebuild β} {pos last : Nat} {value : α}
    (one : first pos = check (.ok value) last) : (first >>= next) pos = next value last := bind_eq one

theorem check_error {α β : Type} {first : Rebuild α} {next : α → Rebuild β} {pos last : Nat}
    (one : first pos = check (.error reason) last) : (first >>= next) pos = .error (.refused reason) := bind_refused one

theorem synthTag_node {tag : UInt8} {pos : Nat} {child : Rebuild SynthExpr}
    (isNode : tag ∈ [ExprTag.formalRef, ExprTag.neg, ExprTag.binary, ExprTag.call]) :
    synthTag cm stubFormalNames data child tag pos = synthNodeTag cm stubFormalNames data child tag pos := by
  obtain ⟨noRow, notString, notNull⟩ : scalarRow tag = none ∧ tag ≠ ExprTag.string ∧ tag ≠ ExprTag.null := by
    simp only [List.mem_cons, List.not_mem_nil, or_false] at isNode
    rcases isNode with rfl | rfl | rfl | rfl <;> decide
  have lit : synthExprDescLiteral cm data tag pos = .ok (none, pos) := by
    rw [synthExprDescLiteral, noRow]
    dsimp only
    rw [if_neg notString, if_neg notNull]
    rfl
  exact bind_eq lit

theorem literal_rebuilds {tag : UInt8} {payload : Bytes} (sized : payloadSize tag = some payload.length) {child : Rebuild SynthExpr}
    (here : data = before ++ (payload ++ tail)) : synthTag cm stubFormalNames data child tag before.length =
      check (rebuild cm stubFormalNames (.scalar tag payload)) (before ++ payload).length := by
  obtain ⟨row, isRow, width⟩ := scalarRow_of_size sized
  have chunk := @take_at data before payload tail .truncatedStream here
  rw [← width] at chunk
  have read : word data row.slotWidth .truncatedStream before.length = .ok (wordOf payload, (before ++ payload).length) := bind_eq chunk
  have lit : synthExprDescLiteral cm data tag before.length =
      .ok (some (.literal (.scalar (scalarOf row (wordOf payload)))), (before ++ payload).length) := by
    rw [synthExprDescLiteral, isRow]
    exact bind_eq read
  rw [synthTag, bind_eq lit, rebuild, isRow]
  rfl

theorem string_rebuilds {idx : UInt32} {child : Rebuild SynthExpr} (here : data = before ++ (putWord 4 idx.toNat ++ tail)) :
    synthTag cm stubFormalNames data child ExprTag.string before.length =
      check (stringConstant cm idx.toNat) (before ++ putWord 4 idx.toNat).length := by
  have read := @word_at data before tail .truncatedStream 4 idx.toNat idx.toNat_lt here
  have lit : synthExprDescLiteral cm data ExprTag.string before.length =
      (check (stringConstant cm idx.toNat) >>= fun lit => pure (some lit)) (before ++ putWord 4 idx.toNat).length := bind_eq read
  rw [synthTag]
  cases found : stringConstant cm idx.toNat with
  | error reason =>
    rw [found] at lit
    exact bind_refused lit
  | ok value =>
    rw [found] at lit
    exact bind_eq lit

theorem call_rebuilds {walk : Rebuild SynthExpr} {key : Text} {paramCount : UInt32} {args : List ExprDesc} (short : key.length < 2 ^ 16)
    (few : args.length < 2 ^ 8) (each : ∀ arg ∈ args, RebuildsAt data walk arg (rebuild cm stubFormalNames arg))
    (here : data = before ++ (ExprDesc.callHead key paramCount args.length ++ (ExprDesc.allBytes args ++ tail))) :
    synthExprDescCall cm data walk before.length = check (rebuild cm stubFormalNames (.call key paramCount args))
      (before ++ (ExprDesc.callHead key paramCount args.length ++ ExprDesc.allBytes args)).length := by
  have spread : data = before ++ (putWord 2 key.length ++ (key ++ (putWord 4 paramCount.toNat ++ (putWord 1 args.length ++
      (ExprDesc.allBytes args ++ tail))))) := by
    rw [here]
    simp only [ExprDesc.callHead, List.append_assoc]
  have keyLen := @word_at data before _ .truncatedCall 2 key.length short spread
  rw [← List.append_assoc] at spread
  have name := @take_at data _ key _ .truncatedCallKey spread
  rw [← List.append_assoc] at spread
  have params := @word_at data _ _ .truncatedCall 4 paramCount.toNat paramCount.toNat_lt spread
  rw [← List.append_assoc] at spread
  have argCount := @word_at data _ _ .truncatedCall 1 args.length few spread
  rw [← List.append_assoc] at spread
  have children := times_rebuilds spread each
  have last : before ++ putWord 2 key.length ++ key ++ putWord 4 paramCount.toNat ++ putWord 1 args.length ++ ExprDesc.allBytes args =
      before ++ (ExprDesc.callHead key paramCount args.length ++ ExprDesc.allBytes args) := by
    simp only [ExprDesc.callHead, List.append_assoc]
  rw [last] at children
  rw [synthExprDescCall, bind_eq keyLen, rebuild]
  by_cases empty : key = []
  · rw [if_pos empty, if_pos (by rw [empty]; rfl)]
    rfl
  · rw [if_neg empty, if_neg fun none => empty (List.length_eq_zero_iff.mp none), bind_eq name, bind_eq params, bind_eq argCount]
    cases target : callTarget cm key paramCount.toNat args.length with
    | error reason => rfl
    | ok parts =>
      obtain ⟨chain, leaf⟩ := parts
      rw [check_ok rfl]
      cases made : rebuildAll cm stubFormalNames args with
      | error reason =>
        rw [made] at children
        exact bind_refused children
      | ok values =>
        rw [made] at children
        exact bind_eq children

theorem synthExprDescNode_rebuilds (fits : tree.Fits depth) (enough : kMaxExprDescDepth + 2 ≤ calls + depth) :
    RebuildsAt data (synthExprDescNode cm stubFormalNames data calls depth) tree (rebuild cm stubFormalNames tree) := by
  intro before tail here
  induction fits generalizing calls before tail with
  | @scalar tag payload depth level sized =>
    obtain ⟨less, _, step⟩ := @synthExprDescNode_tag cm stubFormalNames data before (payload ++ tail) calls depth tag level enough here
    have inner := @literal_rebuilds cm stubFormalNames data (before ++ [tag]) tail tag payload sized
      (synthExprDescNode cm stubFormalNames data less (depth + 1)) (by rw [here]; simp [ExprDesc.bytes])
    rw [step, inner, ExprDesc.bytes, List.append_assoc]
    rfl
  | @string idx depth level =>
    obtain ⟨less, _, step⟩ := @synthExprDescNode_tag cm stubFormalNames data before (putWord 4 idx.toNat ++ tail) calls depth
      ExprTag.string level enough here
    have inner := @string_rebuilds cm stubFormalNames data (before ++ [ExprTag.string]) tail idx
      (synthExprDescNode cm stubFormalNames data less (depth + 1)) (by rw [here]; simp [ExprDesc.bytes])
    rw [step, inner, ExprDesc.bytes, rebuild, List.append_assoc]
    rfl
  | @null depth level =>
    obtain ⟨less, _, step⟩ := @synthExprDescNode_tag cm stubFormalNames data before tail calls depth ExprTag.null level enough here
    rw [step]
    rfl
  | @formalRef idx depth level =>
    obtain ⟨less, _, step⟩ := @synthExprDescNode_tag cm stubFormalNames data before (idx :: tail) calls depth ExprTag.formalRef level
      enough here
    have read := @word_at data (before ++ [ExprTag.formalRef]) tail .truncatedStream 1 idx.toNat idx.toNat_lt
      (by rw [here, ExprDesc.byte_word]; simp [ExprDesc.bytes])
    rw [step, synthTag_node (by decide)]
    change (word data 1 .truncatedStream >>= _) _ = _
    rw [bind_eq read, ExprDesc.byte_word, List.append_assoc]
    rfl
  | @neg operand depth level nested ih =>
    obtain ⟨less, more, step⟩ := @synthExprDescNode_tag cm stubFormalNames data before (operand.bytes ++ tail) calls depth ExprTag.neg
      level enough here
    have inner := ih more (before ++ [ExprTag.neg]) tail (by rw [here]; simp [ExprDesc.bytes])
    rw [List.append_assoc] at inner
    rw [step, synthTag_node (by decide), rebuild, ExprDesc.bytes]
    change (synthExprDescNode cm stubFormalNames data less (depth + 1) >>= _) _ = _
    cases made : rebuild cm stubFormalNames operand with
    | error reason =>
      rw [made] at inner
      exact check_error inner
    | ok value =>
      rw [made] at inner
      exact check_ok inner
  | @binary op left right depth level known first second ihLeft ihRight =>
    obtain ⟨less, more, step⟩ := @synthExprDescNode_tag cm stubFormalNames data before (op :: (left.bytes ++ right.bytes) ++ tail) calls
      depth ExprTag.binary level enough here
    have read := @word_at data (before ++ [ExprTag.binary]) (left.bytes ++ (right.bytes ++ tail)) .badBinaryOperator 1 op.toNat op.toNat_lt
      (by rw [here, ExprDesc.byte_word]; simp [ExprDesc.bytes])
    rw [ExprDesc.byte_word] at read
    have one := ihLeft more (before ++ [ExprTag.binary] ++ [op]) (right.bytes ++ tail) (by rw [here]; simp [ExprDesc.bytes])
    have two := ihRight more (before ++ [ExprTag.binary] ++ [op] ++ left.bytes) tail (by rw [here]; simp [ExprDesc.bytes])
    have last : before ++ [ExprTag.binary] ++ [op] ++ left.bytes ++ right.bytes = before ++ (ExprDesc.binary op left right).bytes := by
      simp [ExprDesc.bytes]
    obtain ⟨operator, isOp⟩ := kOps_of_known known
    rw [last] at two
    rw [step, synthTag_node (by decide), rebuild, isOp]
    change (word data 1 .badBinaryOperator >>= _) _ = _
    rw [bind_eq read, isOp]
    dsimp only
    cases madeLeft : rebuild cm stubFormalNames left with
    | error reason =>
      rw [madeLeft] at one
      exact check_error one
    | ok leftValue =>
      rw [madeLeft] at one
      rw [check_ok one]
      cases madeRight : rebuild cm stubFormalNames right with
      | error reason =>
        rw [madeRight] at two
        exact check_error two
      | ok rightValue =>
        rw [madeRight] at two
        exact check_ok two
  | @call key paramCount args depth level short few nested ih =>
    obtain ⟨less, more, step⟩ := @synthExprDescNode_tag cm stubFormalNames data before
      (ExprDesc.callHead key paramCount args.length ++ ExprDesc.allBytes args ++ tail) calls depth ExprTag.call level enough here
    have inner := @call_rebuilds cm stubFormalNames data (before ++ [ExprTag.call]) tail
      (synthExprDescNode cm stubFormalNames data less (depth + 1)) key paramCount args short few (fun arg member => ih arg member more)
      (by rw [here]; simp [ExprDesc.bytes])
    rw [step, synthTag_node (by decide)]
    change synthExprDescCall cm data _ _ = _
    rw [inner, ExprDesc.bytes, List.append_assoc]
    rfl

theorem synthDefaultExpr_bytes (fits : tree.Fits 0) : synthDefaultExpr cm stubFormalNames tree.bytes =
    match rebuild cm stubFormalNames tree with
    | .ok expr => .ok expr
    | .error reason => .error (.refused reason) := by
  have walked := @synthExprDescNode_rebuilds cm stubFormalNames tree.bytes tree 0 (kMaxExprDescDepth + 2) fits
    (Nat.le_refl (kMaxExprDescDepth + 2)) [] [] (by rw [List.append_nil, List.nil_append])
  rw [List.nil_append] at walked
  unfold synthDefaultExpr
  cases made : rebuild cm stubFormalNames tree with
  | error reason =>
    rw [made] at walked
    exact congrArg (· >>= _) walked
  | ok expr =>
    rw [made] at walked
    refine (congrArg (· >>= _) walked).trans ?_
    exact if_pos rfl

theorem take_safe (count : Nat) (reason : SynthError) : Safe (· ≤ data.length) (read data reason count : Rebuild Bytes) :=
  fun _ inside => (read_ends inside).imp fun _ held => held.2

theorem word_safe (width : Nat) (reason : SynthError) : Safe (· ≤ data.length) (word data width reason) :=
  (take_safe width reason).bind fun _ => .pure _

theorem check_safe {α : Type} (result : Except SynthError α) : Safe (· ≤ data.length) (check result) := by
  intro pos inside
  cases result with
  | error reason => exact .refused reason
  | ok value => exact .done inside

theorem synthExprDescLiteral_safe (tag : UInt8) : Safe (· ≤ data.length) (synthExprDescLiteral cm data tag) := by
  unfold synthExprDescLiteral
  split
  · exact (word_safe _ _).bind fun _ => .pure _
  · refine .ite (fun _ => ?_) fun _ => .ite (fun _ => .pure _) fun _ => .pure _
    exact (word_safe _ _).bind fun _ => (check_safe _).bind fun _ => .pure _

theorem synthExprDescCall_safe {child : Rebuild SynthExpr} (safe : Safe (· ≤ data.length) child) :
    Safe (· ≤ data.length) (synthExprDescCall cm data child) := by
  apply (word_safe _ _).bind
  intro keyLen
  refine .ite (fun _ => .refuse _) fun _ => ?_
  apply (take_safe _ _).bind
  intro key
  apply (word_safe _ _).bind
  intro paramCount
  apply (word_safe _ _).bind
  intro argCount
  apply (check_safe _).bind
  intro target
  exact (safe.times argCount).bind fun _ => .pure _

theorem synthNodeTag_safe {child : Rebuild SynthExpr} (safe : Safe (· ≤ data.length) child) (tag : UInt8) :
    Safe (· ≤ data.length) (synthNodeTag cm stubFormalNames data child tag) := by
  refine .ite (fun _ => ?_) fun _ => .ite (fun _ => ?_) fun _ => .ite (fun _ => ?_) fun _ =>
    .ite (fun _ => synthExprDescCall_safe safe) fun _ => .refuse _
  · exact (word_safe _ _).bind fun _ => check_safe _
  · exact safe.bind fun _ => .pure _
  · apply (word_safe _ _).bind
    intro opCode
    cases kOps[opCode]? with
    | none => exact .refuse _
    | some op => exact safe.bind fun _ => safe.bind fun _ => .pure _

theorem synthExprDescNode_safe (enough : kMaxExprDescDepth + 2 ≤ calls + depth) (shallow : depth ≤ kMaxExprDescDepth + 1) :
    Safe (· ≤ data.length) (synthExprDescNode cm stubFormalNames data calls depth) := by
  induction calls generalizing depth with
  | zero => omega
  | succ calls ih =>
    refine .ite (fun _ => .refuse _) fun level => ?_
    apply (word_safe _ _).bind
    intro tag
    apply (synthExprDescLiteral_safe _).bind
    intro lit
    cases lit with
    | some lit => exact .pure _
    | none => exact synthNodeTag_safe (ih (by omega) (by omega)) _

theorem synthDefaultExpr_guarded (cm : CompiledModule) (stubFormalNames : List Text) (data : Bytes) :
    Ends (fun _ => True) (synthDefaultExpr cm stubFormalNames data) := by
  have safe := @synthExprDescNode_safe cm stubFormalNames data 0 (kMaxExprDescDepth + 2) (Nat.le_refl _) (Nat.zero_le _)
  apply (safe 0 (Nat.zero_le _)).bind
  intro result _
  exact .ite (fun _ => .done trivial) fun _ => .refused _

end Rebuild

end NLang.Backend.Described
