import NLang.Backend.StaticGates

/-!
# Gates on the paths of the emitted code

Every expression and every piece is a block of consistent code, so an instruction that its emitter puts behind a gate
is behind it on every path. A gate is followed by the call of its initializer and by nothing else.
-/

namespace NLang.Backend.StaticGates
open NLang.Library.AnnotatedCode

theorem Emitted.stride_pos (emitted : Emitted) : 0 < emitted.stride := by
  unfold Emitted.stride
  split <;> omega

def edges (pc : Nat) (emitted : Emitted) (facts : List Fact) : List (Nat × List Fact) :=
  match emitted.instr with
  | .classInitGate owner donePc => [(donePc, .passed owner :: facts), (pc + 7, .claimed owner :: facts)]
  | .callInit owner => [(pc + 5, .passed owner :: facts.filter Fact.isPassed)]
  | .jump target => [(target, facts)]
  | .jumpIfNot target => [(target, facts), (pc + 5, facts)]
  | .ret | .throwValue => []
  | _ => [(pc + emitted.stride, facts)]

theorem edges_mono (pc : Nat) (emitted : Emitted) (low high : List Fact) (covers : low ⊆ high) :
    ∀ edge ∈ edges pc emitted high, ∃ edge' ∈ edges pc emitted low, edge'.1 = edge.1 ∧ edge'.2 ⊆ edge.2 := by
  intro edge member
  obtain ⟨instr, direct⟩ := emitted
  cases instr with
  | classInitGate owner donePc =>
    simp only [edges, List.mem_cons, List.not_mem_nil, or_false] at member
    rcases member with rfl | rfl
    · exact ⟨_, List.mem_cons_self, rfl, List.cons_subset_cons _ covers⟩
    · exact ⟨_, List.mem_cons_of_mem _ List.mem_cons_self, rfl, List.cons_subset_cons _ covers⟩
  | callInit owner =>
    cases List.mem_singleton.mp member
    exact ⟨_, List.mem_cons_self, rfl, List.cons_subset_cons _ (List.filter_subset _ covers)⟩
  | jumpIfNot target =>
    simp only [edges, List.mem_cons, List.not_mem_nil, or_false] at member
    rcases member with rfl | rfl
    · exact ⟨_, List.mem_cons_self, rfl, covers⟩
    · exact ⟨_, List.mem_cons_of_mem _ List.mem_cons_self, rfl, covers⟩
  | ret | throwValue => cases member
  | _ =>
    cases List.mem_singleton.mp member
    exact ⟨_, List.mem_cons_self, rfl, covers⟩

def Emitted.GoesOn (emitted : Emitted) : Prop :=
  ∀ pc facts, edges pc emitted facts = [(pc + emitted.stride, facts)]

def Instr.isPlain : Instr → Bool
  | .classInitGate _ _ | .callInit _ | .loadStatic _ | .storeStatic _ | .new _ | .callFunc _ => false
  | _ => true

def Piece.isStraight : Piece → Bool
  | .jump _ | .jumpIfNot _ | .ret | .throwValue => false
  | _ => true

namespace Program
variable (P : Program)

def usedOwner : Instr → Option Nat
  | .loadStatic field | .storeStatic field => P.fieldOwner field
  | .new cls => some cls
  | .callFunc callee => P.staticOwner callee
  | _ => none

structure Good (line : CodeLine) : Prop where
  gated : line.instr.direct = false → ∀ owner, P.usedOwner line.instr.instr = some owner →
    P.staticInitMember owner = true → .passed owner ∈ line.facts
  claimed : ∀ owner, line.instr.instr = .callInit owner →
    P.staticInitMember owner = true ∧ .claimed owner ∈ line.facts

def Sound : List CodeLine → Prop
  | [] => True
  | line :: rest => P.Good line ∧
      (∀ owner donePc, line.instr.instr = .classInitGate owner donePc →
        ∃ call tail, rest = call :: tail ∧ call.instr.instr = .callInit owner) ∧ Sound rest

structure Emits (code : List CodeLine) (base : Nat) (pre post : List Fact) : Prop where
  block : Block Emitted.stride edges code base pre post
  sound : P.Sound code

variable {P} {base : Nat} {facts : List Fact}

theorem Sound.append {first second : List CodeLine} (one : P.Sound first) (two : P.Sound second) :
    P.Sound (first ++ second) := by
  induction first with
  | nil => exact two
  | cons line rest ih =>
    obtain ⟨good, paired, sound⟩ := one
    refine ⟨good, fun owner donePc gate => ?_, ih sound⟩
    obtain ⟨call, tail, rfl, calls⟩ := paired owner donePc gate
    exact ⟨call, tail ++ second, rfl, calls⟩

theorem Sound.good {code : List CodeLine} (sound : P.Sound code) {line : CodeLine} (member : line ∈ code) :
    P.Good line := by
  induction code with
  | nil => cases member
  | cons head rest ih =>
    rcases List.mem_cons.mp member with rfl | later
    · exact sound.1
    · exact ih sound.2.2 later

theorem Sound.call_after {code : List CodeLine} (sound : P.Sound code) {line : CodeLine} {pc owner donePc : Nat}
    (found : fetch Emitted.stride code base pc = some line) (gate : line.instr.instr = .classInitGate owner donePc) :
    ∃ call, fetch Emitted.stride code base (pc + 7) = some call ∧ call.instr.instr = .callInit owner := by
  induction code generalizing base with
  | nil => cases found
  | cons head rest ih =>
    rw [fetch] at found
    split at found
    · cases found
      subst ‹pc = base›
      obtain ⟨call, tail, rfl, calls⟩ := sound.2.1 owner donePc gate
      have width : line.instr.stride = 7 := by rw [Emitted.stride, gate]
      refine ⟨call, ?_, calls⟩
      rw [fetch, width, if_neg (by omega), fetch, if_pos rfl]
    · have wide := head.instr.stride_pos
      have after := fetch_ge found
      rw [fetch, if_neg (by omega)]
      exact ih sound.2.2 found

theorem Good.of_plain {instr : Instr} (plain : instr.isPlain = true) : P.Good (line facts instr) where
  gated := by
    intro _ owner used _
    cases instr with
    | loadStatic | storeStatic | new | callFunc => cases plain
    | _ => cases used
  claimed := by
    rintro owner rfl
    cases plain

def Lasting (facts : List Fact) : Prop := ∀ fact ∈ facts, fact.isPassed = true

theorem lasting_nil : Lasting [] := fun _ member => by cases member

theorem Lasting.passGate (lasting : Lasting facts) (owner : Nat) : Lasting (P.passGate facts owner) := by
  unfold Program.passGate
  split
  · intro fact member
    rcases List.mem_cons.mp member with rfl | old
    · rfl
    · exact lasting fact old
  · exact lasting

theorem Lasting.passFieldGate (lasting : Lasting facts) (node : Node) : Lasting (P.passFieldGate facts node) := by
  unfold Program.passFieldGate
  split
  · exact lasting.passGate _
  · exact lasting

theorem subset_passGate (owner : Nat) : facts ⊆ P.passGate facts owner := by
  unfold Program.passGate
  split
  · exact List.subset_cons_self _ _
  · exact List.Subset.refl _

theorem subset_passFieldGate (node : Node) : facts ⊆ P.passFieldGate facts node := by
  unfold Program.passFieldGate
  split
  · exact subset_passGate _
  · exact List.Subset.refl _

theorem mem_passGate {owner : Nat} (synthesized : P.staticInitMember owner = true) :
    .passed owner ∈ P.passGate facts owner := by
  rw [Program.passGate, if_pos synthesized]
  exact List.mem_cons_self

theorem mem_passFieldGate {node : Node} {owner : Nat} (owned : P.gateOwner node = some owner)
    (synthesized : P.staticInitMember owner = true) : .passed owner ∈ P.passFieldGate facts node := by
  rw [Program.passFieldGate, owned]
  exact mem_passGate synthesized

@[simp] theorem size_append (first second : List CodeLine) : size (first ++ second) = size first + size second :=
  codeSize_append _ _ _

@[simp] theorem size_cons (line : CodeLine) (rest : List CodeLine) :
    size (line :: rest) = line.instr.stride + size rest := codeSize_cons _ _ _

@[simp] theorem size_nil : size [] = 0 := rfl

theorem Emits.nil {pre post : List Fact} (covers : post ⊆ pre) : P.Emits [] base pre post :=
  ⟨Block.nil covers, True.intro⟩

theorem Emits.append {first second : List CodeLine} {pre mid post : List Fact} (one : P.Emits first base pre mid)
    (two : P.Emits second (base + size first) mid post) : P.Emits (first ++ second) base pre post :=
  ⟨Block.append Emitted.stride_pos one.block two.block, one.sound.append two.sound⟩

theorem Emits.one {line : CodeLine} {post : List Fact} (goesOn : line.instr.GoesOn) (good : P.Good line)
    (covers : post ⊆ line.facts) : P.Emits [line] base line.facts post where
  block := by
    refine Block.line (List.Subset.refl _) fun edge member => ?_
    rw [goesOn] at member
    cases List.mem_singleton.mp member
    exact ⟨rfl, covers⟩
  sound := by
    refine ⟨good, fun owner donePc gate => ?_, True.intro⟩
    have on := goesOn 0 []
    rw [edges, gate] at on
    cases on

theorem Emits.two {first second : Instr} (one : Emitted.GoesOn { instr := first })
    (two : Emitted.GoesOn { instr := second }) (good : P.Good (line facts first))
    (plain : second.isPlain = true) {post : List Fact} (covers : post ⊆ facts) :
    P.Emits [line facts first, line facts second] base facts post := by
  have head : P.Emits [line facts first] base facts facts := .one one good (List.Subset.refl _)
  exact head.append (.one two (.of_plain plain) covers)

theorem emitClassInitGate_emits (lasting : Lasting facts) (owner : Nat)
    (small : base + size (P.emitClassInitGate base facts owner) < 2 ^ 16) :
    P.Emits (P.emitClassInitGate base facts owner) base facts (P.passGate facts owner) := by
  unfold emitClassInitGate Program.passGate at *
  split
  · rename_i synthesized
    rw [if_pos synthesized] at small
    have target : (base + 12) % 2 ^ 16 = base + 12 := by
      simp only [size_cons, size_nil, line, Emitted.stride] at small
      exact Nat.mod_eq_of_lt (by omega)
    have settled : facts.filter Fact.isPassed = facts := List.filter_eq_self.mpr lasting
    have call : Block Emitted.stride edges [line (.claimed owner :: facts) (.callInit owner)] (base + 7)
        (.claimed owner :: facts) (.passed owner :: facts) := by
      refine Block.line (List.Subset.refl _) fun edge member => ?_
      simp only [line, edges, List.filter_cons, Fact.isPassed, settled, Bool.false_eq_true, if_false,
        List.mem_singleton] at member
      subst member
      exact ⟨rfl, List.Subset.refl _⟩
    refine ⟨Block.skipping Emitted.stride_pos (List.Subset.refl _) (fun edge member => ?_) call, ?_⟩
    · simp only [line, edges, List.mem_cons, List.not_mem_nil, or_false] at member
      rcases member with rfl | rfl
      · exact .inr ⟨target.trans (by simp only [line, codeSize_cons, codeSize_nil, Emitted.stride]), List.Subset.refl _⟩
      · exact .inl ⟨rfl, List.Subset.refl _⟩
    · have gate : P.Good (line facts (.classInitGate owner ((base + 12) % 2 ^ 16))) :=
        ⟨fun _ _ used => (by cases used), fun _ same => by cases same⟩
      have calls : P.Good (line (.claimed owner :: facts) (.callInit owner)) := by
        refine ⟨fun _ _ used => (by cases used), fun _ same => ?_⟩
        cases same
        exact ⟨synthesized, List.mem_cons_self⟩
      refine ⟨gate, fun _ _ same => ?_, calls, fun _ _ same => (by cases same), True.intro⟩
      cases same
      exact ⟨_, [], rfl, rfl⟩
  · exact .nil (List.Subset.refl _)

theorem emitStaticFieldGate_emits (lasting : Lasting facts) (node : Node)
    (small : base + size (P.emitStaticFieldGate base facts node) < 2 ^ 16) :
    P.Emits (P.emitStaticFieldGate base facts node) base facts (P.passFieldGate facts node) := by
  unfold emitStaticFieldGate Program.passFieldGate at *
  split
  · rename_i owned
    rw [owned] at small
    exact emitClassInitGate_emits lasting _ small
  · exact .nil (List.Subset.refl _)

theorem Good.behind {node : Node} {instr : Instr} (uses : P.usedOwner instr = P.gateOwner node)
    (notInit : ∀ owner, instr ≠ .callInit owner) : P.Good (line (P.passFieldGate facts node) instr) where
  gated := fun _ _ used synthesized => mem_passFieldGate (uses.symm.trans used) synthesized
  claimed := fun owner same => absurd same (notInit owner)

theorem Good.new (cls : Nat) : P.Good (line (P.passGate facts cls) (.new cls)) where
  gated := by
    intro _ owner used synthesized
    cases used
    exact mem_passGate synthesized
  claimed := fun _ same => by cases same

theorem Good.direct {instr : Instr} (notInit : ∀ owner, instr ≠ .callInit owner) :
    P.Good (directLine facts instr) where
  gated := fun gated => by cases gated
  claimed := fun owner same => absurd same (notInit owner)

theorem emitStaticRead_emits (lasting : Lasting facts) (field : Nat)
    (small : base + size (P.emitStaticRead base facts field) < 2 ^ 16) :
    P.Emits (P.emitStaticRead base facts field) base facts facts := by
  unfold emitStaticRead at *
  split
  · exact .one (fun _ _ => rfl) (.of_plain rfl) (List.Subset.refl _)
  · rename_i folded
    rw [if_neg folded, size_append] at small
    exact (emitStaticFieldGate_emits lasting _ (by omega)).append
      (.one (fun _ _ => rfl) (.behind rfl fun _ same => by cases same) (subset_passFieldGate _))

theorem Emits.normalized {code : List CodeLine} (operand : P.Emits code base facts facts) :
    P.Emits (code ++ [line facts (.op 2), line facts (.op 2)]) base facts facts :=
  operand.append (.two (fun _ _ => rfl) (fun _ _ => rfl) (.of_plain rfl) rfl (List.Subset.refl _))

theorem size_normalized {code normal : List CodeLine}
    (normal_eq : code ++ [line facts (.op 2), line facts (.op 2)] = normal) : size normal = size code + 6 := by
  rw [← normal_eq, size_append]
  rfl

theorem Sound.jump {instr : Instr} {rest : List CodeLine} (plain : instr.isPlain = true) (sound : P.Sound rest) :
    P.Sound (line facts instr :: rest) := by
  refine ⟨.of_plain plain, fun _ _ gate => ?_, sound⟩
  rw [show instr = _ from gate] at plain
  cases plain

theorem logicalAnd_emits {second : List CodeLine} {target : Nat}
    (right : P.Emits second (base + 5) facts facts) (there : target = base + 5 + size second) :
    P.Emits (line facts (.jumpIfNot target) :: second) base facts facts := by
  refine ⟨Block.skipping Emitted.stride_pos (List.Subset.refl _) (fun edge member => ?_) right.block,
    right.sound.jump rfl⟩
  simp only [line, edges, List.mem_cons, List.not_mem_nil, or_false] at member
  rcases member with rfl | rfl
  · exact .inr ⟨there, List.Subset.refl _⟩
  · exact .inl ⟨rfl, List.Subset.refl _⟩

theorem logicalOr_emits {second : List CodeLine} {target : Nat}
    (right : P.Emits second (base + 8) facts facts) (there : target = base + 8 + size second) :
    P.Emits (line facts (.jumpIfNot (base + 8)) :: line facts (.jump target) :: second) base facts facts := by
  let tests := [line facts (.jumpIfNot (base + 8)), line facts (.jump target)]
  have width : base + codeSize Emitted.stride tests = base + 8 := rfl
  have stop : base + codeSize Emitted.stride (tests ++ second) = target := by
    rw [there, codeSize_append, ← Nat.add_assoc, width]
    rfl
  have jumps : Consistent Emitted.stride edges tests base fun pc reached =>
      leavesAt (base + codeSize Emitted.stride tests) facts pc reached ∨
        leavesAt (base + codeSize Emitted.stride (tests ++ second)) facts pc reached := by
    rw [width, stop]
    intro pc line' found edge member
    change (if pc = base then some (line facts (.jumpIfNot (base + 8)))
      else if pc = base + 5 then some (line facts (.jump target)) else none) = some line' at found
    by_cases test : pc = base
    · rw [if_pos test] at found
      cases found
      subst test
      simp only [line, edges, List.mem_cons, List.not_mem_nil, or_false] at member
      rcases member with rfl | rfl
      · exact .inr (.inl ⟨rfl, List.Subset.refl _⟩)
      · refine .inl ⟨line facts (.jump target), ?_, List.Subset.refl _⟩
        simp [tests, fetch, line, Emitted.stride]
    · rw [if_neg test] at found
      by_cases skip : pc = base + 5
      · rw [if_pos skip] at found
        cases found
        cases List.mem_singleton.mp member
        exact .inr (.inr ⟨rfl, List.Subset.refl _⟩)
      · rw [if_neg skip] at found
        cases found
  exact ⟨Block.branching Emitted.stride_pos jumps (.inl ⟨_, if_pos rfl, List.Subset.refl _⟩) (width ▸ right.block),
    (right.sound.jump rfl).jump rfl⟩

theorem Emits.gated {gate args use : List CodeLine} {passed : List Fact} (one : P.Emits gate base facts passed)
    (two : P.Emits args (base + size gate) passed passed)
    (three : P.Emits use (base + size (gate ++ args)) passed facts) :
    P.Emits (gate ++ args ++ use) base facts facts :=
  (one.append two).append three

mutual

theorem emitExpression_emits (base : Nat) {facts : List Fact} (lasting : Lasting facts) (value : Expr)
    (small : base + size (P.emitExpression base facts value) < 2 ^ 16) :
    P.Emits (P.emitExpression base facts value) base facts facts := by
  cases value with
  | operation operands operandBytes =>
    simp only [emitExpression, size_append] at small ⊢
    exact (emitAll_emits base lasting operands (by omega)).append
      (.one (fun _ _ => rfl) (.of_plain rfl) (List.Subset.refl _))
  | logicalAnd left right =>
    simp only [emitExpression] at small ⊢
    generalize first_eq : P.emitExpression base facts left ++ _ = first at small ⊢
    generalize second_eq : P.emitExpression _ facts right ++ _ = second at small ⊢
    have firstSize := size_normalized first_eq
    have secondSize := size_normalized second_eq
    simp only [size_append, size_cons, line, Emitted.stride] at small
    have one := (emitExpression_emits base lasting left (by omega)).normalized
    have two := (emitExpression_emits (base + size first + 5) lasting right (by omega)).normalized
    rw [first_eq] at one
    rw [second_eq] at two
    rw [Nat.mod_eq_of_lt (by omega)]
    exact one.append (logicalAnd_emits two rfl)
  | logicalOr left right =>
    simp only [emitExpression] at small ⊢
    generalize first_eq : P.emitExpression base facts left ++ _ = first at small ⊢
    generalize second_eq : P.emitExpression _ facts right ++ _ = second at small ⊢
    have firstSize := size_normalized first_eq
    have secondSize := size_normalized second_eq
    simp only [size_append, size_cons, line, Emitted.stride] at small
    have one := (emitExpression_emits base lasting left (by omega)).normalized
    have two := (emitExpression_emits (base + size first + 8) lasting right (by omega)).normalized
    rw [first_eq] at one
    rw [second_eq] at two
    rw [Nat.mod_eq_of_lt (by omega), Nat.mod_eq_of_lt (by omega)]
    exact one.append (logicalOr_emits two rfl)
  | name field => exact emitStaticRead_emits lasting field small
  | member field => exact emitStaticRead_emits lasting field small
  | invoke callee args | memberInvoke callee args =>
    simp only [emitExpression, size_append] at small ⊢
    exact (emitStaticFieldGate_emits lasting _ (by omega)).gated
      (emitAll_emits _ (lasting.passFieldGate _) args (by omega))
      (.two (fun _ _ => rfl) (fun _ _ => rfl) (.behind rfl fun _ same => by cases same) rfl
        (subset_passFieldGate _))
  | methodInvoke receiver args =>
    simp only [emitExpression, size_append] at small ⊢
    exact (emitExpression_emits base lasting receiver (by omega)).gated
      (emitAll_emits _ lasting args (by omega))
      (.two (fun _ _ => rfl) (fun _ _ => rfl) (.of_plain rfl) rfl (List.Subset.refl _))
  | delegateInvoke args =>
    simp only [emitExpression, size_append] at small ⊢
    exact (emitAll_emits base lasting args (by omega)).append
      (.two (fun _ _ => rfl) (fun _ _ => rfl) (.of_plain rfl) rfl (List.Subset.refl _))
  | newObject cls args =>
    simp only [emitExpression, size_append] at small ⊢
    exact (emitClassInitGate_emits lasting _ (by omega)).gated
      (emitAll_emits _ (lasting.passGate _) args (by omega))
      (.two (fun _ _ => rfl) (fun _ _ => rfl) (.new cls) rfl (subset_passGate _))
  | initList cls entries =>
    simp only [emitExpression, size_append] at small ⊢
    have object : P.Emits [directLine facts (.new cls)] base facts facts :=
      .one (fun _ _ => rfl) (.direct fun _ same => by cases same) (List.Subset.refl _)
    have made : P.Emits [directLine facts (.new cls), line facts .callMethod] base facts facts :=
      object.append (.one (fun _ _ => rfl) (.of_plain rfl) (List.Subset.refl _))
    exact made.append (emitAll_emits _ lasting entries (by omega))

theorem emitAll_emits (base : Nat) {facts : List Fact} (lasting : Lasting facts) (values : Exprs)
    (small : base + size (P.emitAll base facts values) < 2 ^ 16) :
    P.Emits (P.emitAll base facts values) base facts facts := by
  cases values with
  | nil => exact .nil (List.Subset.refl _)
  | cons first rest =>
    simp only [emitAll, size_append] at small ⊢
    exact (emitExpression_emits base lasting first (by omega)).append
      (emitAll_emits _ lasting rest (by omega))

end

theorem emitStaticStore_emits (field : Nat) (value : Expr)
    (small : base + size (P.emitStaticStore base [] field value) < 2 ^ 16) :
    P.Emits (P.emitStaticStore base [] field value) base [] [] := by
  simp only [emitStaticStore, size_append] at small ⊢
  exact (emitStaticFieldGate_emits lasting_nil _ (by omega)).gated
    (emitExpression_emits _ (lasting_nil.passFieldGate _) value (by omega))
    (.one (fun _ _ => rfl) (.behind rfl fun _ same => by cases same) (subset_passFieldGate _))

theorem emitCompoundAssignStaticField_emits (field : Nat) (lhsType : Node) (value : Expr)
    (small : base + size (P.emitCompoundAssignStaticField base [] field lhsType value) < 2 ^ 16) :
    P.Emits (P.emitCompoundAssignStaticField base [] field lhsType value) base [] [] := by
  simp only [emitCompoundAssignStaticField, size_append, size_cons] at small ⊢
  have passed : Lasting (P.passFieldGate [] lhsType) := lasting_nil.passFieldGate _
  have load : P.Emits [directLine (P.passFieldGate [] lhsType) (.loadStatic field)]
      (base + size (P.emitStaticFieldGate base [] lhsType)) (P.passFieldGate [] lhsType) (P.passFieldGate [] lhsType) :=
    .one (fun _ _ => rfl) (.direct fun _ same => by cases same) (List.Subset.refl _)
  have operator : ∀ start, P.Emits [line (P.passFieldGate [] lhsType) (.op 5)] start (P.passFieldGate [] lhsType)
      (P.passFieldGate [] lhsType) :=
    fun _ => .one (fun _ _ => rfl) (.of_plain rfl) (List.Subset.refl _)
  have operand := emitExpression_emits (P := P) (base + size (P.emitStaticFieldGate base [] lhsType) + 5) passed value
    (by simp only [directLine, line, Emitted.stride] at small; omega)
  exact ((emitStaticFieldGate_emits lasting_nil _ (by omega)).append (load.append operand)).append
    ((operator _).append (.one (fun _ _ => rfl) (.direct fun _ same => by cases same) (subset_passFieldGate _)))

theorem emitPiece_emits {offsets : Nat → Nat} {piece : Piece} (straight : piece.isStraight = true)
    (small : base + size (P.emitPiece offsets base piece) < 2 ^ 16) :
    P.Emits (P.emitPiece offsets base piece) base [] [] := by
  cases piece with
  | eval value => exact emitExpression_emits base lasting_nil value small
  | assignName field value | assignMember field value => exact emitStaticStore_emits field value small
  | compoundName field value | compoundMember field value =>
    exact emitCompoundAssignStaticField_emits field _ value small
  | superGate superClass =>
    have gate := emitClassInitGate_emits lasting_nil superClass small
    exact ⟨⟨gate.block.consistent.relabel fun pc facts label =>
      .inr ⟨label.1, List.nil_subset _⟩, gate.block.enters.mono fun label =>
      ⟨label.1, List.nil_subset _⟩⟩, gate.sound⟩
  | _ => cases straight

theorem emitPiece_sound {offsets : Nat → Nat} {piece : Piece}
    (small : base + size (P.emitPiece offsets base piece) < 2 ^ 16) : P.Sound (P.emitPiece offsets base piece) := by
  by_cases straight : piece.isStraight = true
  · exact (emitPiece_emits straight small).sound
  · cases piece with
    | jump | jumpIfNot | ret | throwValue => exact .jump rfl True.intro
    | _ => exact absurd rfl straight

section Sizes
variable (P)

def gateSize (owner : Nat) : Nat := if P.staticInitMember owner then 12 else 0

def fieldGateSize (node : Node) : Nat := (P.gateOwner node).elim 0 P.gateSize

def readSize (field : Nat) : Nat :=
  if P.fields[field]?.any StaticField.folds then 5 else P.fieldGateSize (.field field) + 5

mutual

def expressionSize : Expr → Nat
  | .operation operands operandBytes => allSize operands + (operandBytes + 1)
  | .logicalAnd left right => expressionSize left + 6 + (5 + (expressionSize right + 6))
  | .logicalOr left right => expressionSize left + 6 + (5 + (3 + (expressionSize right + 6)))
  | .name field | .member field => P.readSize field
  | .invoke callee args | .memberInvoke callee args => P.fieldGateSize (.function callee) + allSize args + 6
  | .methodInvoke receiver args => expressionSize receiver + allSize args + 6
  | .delegateInvoke args => allSize args + 4
  | .newObject cls args => P.gateSize cls + allSize args + 10
  | .initList _ entries => 10 + allSize entries

def allSize : Exprs → Nat
  | .nil => 0
  | .cons first rest => expressionSize first + allSize rest

end

def pieceSize : Piece → Nat
  | .eval value => P.expressionSize value
  | .assignName field value | .assignMember field value =>
    P.fieldGateSize (.field field) + P.expressionSize value + 5
  | .compoundName _ value | .compoundMember _ value => 5 + P.expressionSize value + 11
  | .superGate superClass => P.gateSize superClass
  | .jump _ | .throwValue => 3
  | .jumpIfNot _ => 5
  | .ret => 1

end Sizes

@[simp] theorem size_emitClassInitGate (owner : Nat) : size (P.emitClassInitGate base facts owner) = P.gateSize owner := by
  unfold emitClassInitGate gateSize
  split <;> rfl

@[simp] theorem size_emitStaticFieldGate (node : Node) :
    size (P.emitStaticFieldGate base facts node) = P.fieldGateSize node := by
  unfold emitStaticFieldGate fieldGateSize
  cases P.gateOwner node with
  | none => rfl
  | some owner => exact size_emitClassInitGate owner

@[simp] theorem size_emitStaticRead (field : Nat) : size (P.emitStaticRead base facts field) = P.readSize field := by
  unfold emitStaticRead readSize
  split
  · rfl
  · rw [size_append, size_emitStaticFieldGate]
    rfl

mutual

theorem size_emitExpression (base : Nat) (facts : List Fact) (value : Expr) :
    size (P.emitExpression base facts value) = P.expressionSize value := by
  cases value with
  | operation operands operandBytes =>
    rw [emitExpression, expressionSize, size_append, size_emitAll]
    rfl
  | logicalAnd left right | logicalOr left right =>
    simp only [emitExpression, expressionSize, size_append, size_cons, size_emitExpression]
    rfl
  | name field | member field => exact size_emitStaticRead field
  | invoke callee args | memberInvoke callee args =>
    simp only [emitExpression, expressionSize, size_append, size_emitStaticFieldGate, size_emitAll]
    rfl
  | methodInvoke receiver args =>
    simp only [emitExpression, expressionSize, size_append, size_emitExpression, size_emitAll]
    rfl
  | delegateInvoke args =>
    rw [emitExpression, expressionSize, size_append, size_emitAll]
    rfl
  | newObject cls args =>
    simp only [emitExpression, expressionSize, size_append, size_emitClassInitGate, size_emitAll]
    rfl
  | initList cls entries =>
    simp only [emitExpression, expressionSize, size_append, size_emitAll]
    rfl

theorem size_emitAll (base : Nat) (facts : List Fact) (values : Exprs) :
    size (P.emitAll base facts values) = P.allSize values := by
  cases values with
  | nil => rfl
  | cons first rest => rw [emitAll, allSize, size_append, size_emitExpression, size_emitAll]

end

@[simp] theorem size_emitPiece (base : Nat) (offsets : Nat → Nat) (piece : Piece) :
    size (P.emitPiece offsets base piece) = P.pieceSize piece := by
  cases piece with
  | eval value => exact size_emitExpression _ _ value
  | assignName field value | assignMember field value =>
    simp only [emitPiece, emitAssignBareIdentifier, emitAssignMemberField, emitStaticStore, pieceSize, size_append,
      size_emitStaticFieldGate, size_emitExpression]
    rfl
  | compoundName field value | compoundMember field value =>
    simp only [emitPiece, emitCompoundAssignBareIdentifier, emitCompoundAssignMemberField,
      emitCompoundAssignStaticField, pieceSize, size_append, size_cons, size_emitStaticFieldGate,
      size_emitExpression, size_nil]
    simp [fieldGateSize, gateOwner, evalDataType, directLine, line, Emitted.stride]
  | superGate superClass => exact size_emitClassInitGate _
  | _ => rfl

variable {offsets : Nat → Nat} {pieces : List Piece}

@[simp] theorem offset_zero : P.offset pieces 0 = 0 := rfl

@[simp] theorem offset_succ (piece : Piece) (rest : List Piece) (index : Nat) :
    P.offset (piece :: rest) (index + 1) = P.pieceSize piece + P.offset rest index := by
  simp [offset]

theorem size_emitPieces (base : Nat) (offsets : Nat → Nat) (pieces : List Piece) :
    size (P.emitPieces offsets base pieces) = (pieces.map P.pieceSize).sum + 1 := by
  induction pieces generalizing base with
  | nil => rfl
  | cons piece rest ih =>
    rw [emitPieces, size_append, size_emitPiece, ih, List.map_cons, List.sum_cons, Nat.add_assoc]

theorem offset_lt (base index : Nat) : P.offset pieces index < size (P.emitPieces offsets base pieces) := by
  induction pieces generalizing base index with
  | nil => simp [offset, emitPieces, line, Emitted.stride]
  | cons piece rest ih =>
    simp only [emitPieces, size_append, size_emitPiece]
    cases index with
    | zero =>
      have later := ih (base + P.pieceSize piece) 0
      rw [offset_zero] at later ⊢
      omega
    | succ index =>
      have later := ih (base + P.pieceSize piece) index
      rw [offset_succ]
      omega

theorem emitPiece_enters (offsets : Nat → Nat) (piece : Piece) (small : base + P.pieceSize piece < 2 ^ 16) :
    Accepts Emitted.stride (P.emitPiece offsets base piece) base (leavesAt (base + P.pieceSize piece) []) base [] := by
  by_cases straight : piece.isStraight = true
  · have emits : P.Emits (P.emitPiece offsets base piece) base [] [] :=
      emitPiece_emits straight (by rwa [size_emitPiece])
    have width : size (P.emitPiece offsets base piece) = P.pieceSize piece := size_emitPiece base offsets piece
    rw [← width]
    exact emits.block.enters
  · cases piece with
    | jump | jumpIfNot | ret | throwValue => exact .inl ⟨_, if_pos rfl, List.Subset.refl _⟩
    | _ => exact absurd rfl straight

theorem accepts_piece {index : Nat} (facts : List Fact) (inside : index ≤ pieces.length)
    (small : base + size (P.emitPieces offsets base pieces) < 2 ^ 16) :
    Accepts Emitted.stride (P.emitPieces offsets base pieces) base nowhere (base + P.offset pieces index) facts := by
  induction pieces generalizing base index with
  | nil =>
    obtain rfl := Nat.le_zero.mp inside
    exact .inl ⟨_, if_pos rfl, List.nil_subset _⟩
  | cons piece rest ih =>
    have width := size_emitPiece (P := P) base offsets piece
    simp only [emitPieces, size_append, width] at small ⊢
    have later : ∀ index ≤ rest.length, Accepts Emitted.stride
        (P.emitPiece offsets base piece ++ P.emitPieces offsets (base + P.pieceSize piece) rest) base nowhere
        (base + P.pieceSize piece + P.offset rest index) facts := by
      intro index inRest
      have fits : base + P.pieceSize piece + size (P.emitPieces offsets (base + P.pieceSize piece) rest) < 2 ^ 16 := by
        omega
      have inside := ih inRest fits
      rw [← width] at inside ⊢
      exact inside.append_right Emitted.stride_pos fun none => none.elim
    cases index with
    | zero =>
      have fits : base + P.pieceSize piece < 2 ^ 16 := by omega
      rcases emitPiece_enters offsets piece fits with ⟨first, found, covers⟩ | ⟨here, -⟩
      · exact .inl ⟨first, fetch_append_left found, List.Subset.trans covers (List.nil_subset _)⟩
      · have next := later 0 (Nat.zero_le _)
        have empty : P.pieceSize piece = 0 := by omega
        simp only [offset_zero, empty, Nat.add_zero] at next ⊢
        exact next
    | succ index =>
      rw [offset_succ, ← Nat.add_assoc]
      exact later index (Nat.le_of_succ_le_succ inside)

theorem emitPieces_sound (small : base + size (P.emitPieces offsets base pieces) < 2 ^ 16) :
    P.Sound (P.emitPieces offsets base pieces) := by
  induction pieces generalizing base with
  | nil => exact .jump rfl True.intro
  | cons piece rest ih =>
    simp only [emitPieces, size_append] at small ⊢
    exact (emitPiece_sound (by omega)).append (ih (by omega))

theorem emitPiece_consistent {piece : Piece} (small : base + size (P.emitPiece offsets base piece) < 2 ^ 16)
    (targets : ∀ target, piece.target = some target → offsets target < 2 ^ 16) :
    Consistent Emitted.stride edges (P.emitPiece offsets base piece) base fun pc reached =>
      leavesAt (base + size (P.emitPiece offsets base piece)) [] pc reached ∨
        ∃ target, piece.target = some target ∧ pc = offsets target := by
  by_cases straight : piece.isStraight = true
  · exact (emitPiece_emits straight small).block.consistent.relabel fun _ _ label => .inr (.inl label)
  · cases piece with
    | jump target =>
      refine Consistent.line fun edge member => .inr (.inr ⟨target, rfl, ?_⟩)
      cases List.mem_singleton.mp member
      exact Nat.mod_eq_of_lt (targets target rfl)
    | jumpIfNot target =>
      refine Consistent.line fun edge member => .inr ?_
      simp only [line, edges, List.mem_cons, List.not_mem_nil, or_false] at member
      rcases member with rfl | rfl
      · exact .inr ⟨target, rfl, Nat.mod_eq_of_lt (targets target rfl)⟩
      · exact .inl ⟨rfl, List.nil_subset _⟩
    | ret | throwValue =>
      refine Consistent.line fun edge member => ?_
      cases member
    | _ => exact absurd rfl straight

theorem emitPieces_consistent {count : Nat} (small : base + size (P.emitPieces offsets base pieces) < 2 ^ 16)
    (fits : ∀ index, offsets index < 2 ^ 16)
    (targets : ∀ piece ∈ pieces, ∀ target, piece.target = some target → target ≤ count) :
    Consistent Emitted.stride edges (P.emitPieces offsets base pieces) base fun pc _ =>
      ∃ index ≤ count, pc = offsets index := by
  induction pieces generalizing base with
  | nil =>
    refine Consistent.line fun edge member => ?_
    cases member
  | cons piece rest ih =>
    simp only [emitPieces, size_append] at small ⊢
    generalize code_eq : P.emitPiece offsets base piece = code at small ⊢
    have pieceFits : base + size (P.emitPiece offsets base piece) < 2 ^ 16 := by
      rw [code_eq]
      omega
    have restFits : base + size code + size (P.emitPieces offsets (base + size code) rest) < 2 ^ 16 := by omega
    have one := emitPiece_consistent pieceFits fun target _ => fits target
    rw [code_eq] at one
    have two := ih restFits fun other member => targets other (List.mem_cons_of_mem _ member)
    refine one.append Emitted.stride_pos two ?_ fun _ _ label => .inr label
    rintro pc reached (⟨rfl, -⟩ | ⟨target, jumps, rfl⟩)
    · have starts := accepts_piece reached (Nat.zero_le rest.length) restFits
      exact starts.append_right Emitted.stride_pos fun none => none.elim
    · exact .inr ⟨target, targets piece List.mem_cons_self target jumps, rfl⟩

variable {pc : Nat}

def Small (P : Program) : Prop := ∀ routine, size (P.code routine) < 2 ^ 16

theorem code_accepts (small : P.Small) {routine : Routine} {index : Nat} (facts : List Fact)
    (inside : index ≤ (P.body routine).pieces.length) :
    Accepts Emitted.stride (P.code routine) 0 nowhere (P.offset (P.body routine).pieces index) facts := by
  have fits : 0 + size (P.code routine) < 2 ^ 16 := by
    rw [Nat.zero_add]
    exact small routine
  have accepts := accepts_piece facts inside fits
  rwa [Nat.zero_add] at accepts

theorem code_consistent (small : P.Small) (routine : Routine) :
    Consistent Emitted.stride edges (P.code routine) 0 nowhere := by
  have fits := small routine
  have bounded : ∀ index, P.offset (P.body routine).pieces index < 2 ^ 16 :=
    fun index => Nat.lt_trans (offset_lt 0 index) fits
  refine (emitPieces_consistent (by rwa [Nat.zero_add]) bounded (P.body routine).targets).relabel ?_
  rintro pc facts ⟨index, inside, rfl⟩
  exact code_accepts small facts inside

theorem code_sound (small : P.Small) (routine : Routine) : P.Sound (P.code routine) :=
  emitPieces_sound (by rw [Nat.zero_add]; exact small routine)

variable (P)

def entersHandler (routine : Routine) (pc : Nat) (facts : List Fact) (target : Nat) (facts' : List Fact) : Prop :=
  ∃ row ∈ (P.body routine).tryRows, P.offset (P.body routine).pieces row.start ≤ pc ∧
    pc < P.offset (P.body routine).pieces row.stop ∧ target = P.offset (P.body routine).pieces row.handler ∧
    facts' = facts.filter Fact.isPassed

abbrev Path (routine : Routine) : Nat → List Fact → Prop :=
  Library.AnnotatedCode.Path Emitted.stride edges (P.code routine) (P.entersHandler routine)

variable {P}

theorem Path.line (small : P.Small) {routine : Routine} (path : P.Path routine pc facts) :
    ∃ line, fetch Emitted.stride (P.code routine) 0 pc = some line ∧ line.facts ⊆ facts := by
  have covered := Library.AnnotatedCode.Path.covered (code_consistent small routine) edges_mono
    (code_accepts small [] (Nat.zero_le _)) (by
      rintro _ _ _ _ ⟨row, member, -, -, rfl, -⟩
      exact code_accepts small _ ((P.body routine).handlers row member)) path
  exact covered.resolve_right id

theorem Path.covered (small : P.Small) {routine : Routine} (path : P.Path routine pc facts) {line : CodeLine}
    (found : fetch Emitted.stride (P.code routine) 0 pc = some line) : line.facts ⊆ facts := by
  obtain ⟨line', found', covers⟩ := Path.line small path
  obtain rfl := Option.some.inj (found.symm.trans found')
  exact covers

theorem Path.gated (small : P.Small) {routine : Routine} (path : P.Path routine pc facts) {line : CodeLine}
    (found : fetch Emitted.stride (P.code routine) 0 pc = some line) (gated : line.instr.direct = false) {owner : Nat}
    (uses : P.usedOwner line.instr.instr = some owner) (synthesized : P.staticInitMember owner = true) :
    .passed owner ∈ facts :=
  path.covered small found (((code_sound small routine).good (mem_of_fetch found)).gated gated owner uses synthesized)

end Program
end NLang.Backend.StaticGates
