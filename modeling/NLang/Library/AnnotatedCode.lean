import Mathlib

/-!
# Annotated code

A line is an instruction and the facts that hold whenever control is in front of it. What facts an instruction leaves
behind, and where, is its edges. Code is consistent if the facts on every edge cover the facts of the line it leads
to; then the annotation holds on every path. Consistency is proved for the pieces of a code and put together.
-/

namespace NLang.Library.AnnotatedCode

structure Line (ι κ : Type) where
  instr : ι
  facts : List κ

variable {ι κ : Type}

section Layout
variable (stride : ι → Nat)

def codeSize (code : List (Line ι κ)) : Nat := (code.map fun line => stride line.instr).sum

def fetch : List (Line ι κ) → Nat → Nat → Option (Line ι κ)
  | [], _, _ => none
  | line :: rest, base, pc => if pc = base then some line else fetch rest (base + stride line.instr) pc

@[simp] theorem codeSize_nil : codeSize stride ([] : List (Line ι κ)) = 0 := rfl

@[simp] theorem codeSize_cons (line : Line ι κ) (rest : List (Line ι κ)) :
    codeSize stride (line :: rest) = stride line.instr + codeSize stride rest := by
  simp [codeSize]

@[simp] theorem codeSize_append (first second : List (Line ι κ)) :
    codeSize stride (first ++ second) = codeSize stride first + codeSize stride second := by
  simp [codeSize]

variable {stride}

theorem mem_of_fetch {code : List (Line ι κ)} {base pc : Nat} {line : Line ι κ}
    (found : fetch stride code base pc = some line) : line ∈ code := by
  induction code generalizing base with
  | nil => cases found
  | cons head rest ih =>
    rw [fetch] at found
    split at found
    · cases found
      exact List.mem_cons_self
    · exact List.mem_cons_of_mem _ (ih found)

theorem fetch_ge {code : List (Line ι κ)} {base pc : Nat} {line : Line ι κ}
    (found : fetch stride code base pc = some line) : base ≤ pc := by
  induction code generalizing base with
  | nil => cases found
  | cons head rest ih =>
    rw [fetch] at found
    split at found
    · omega
    · have later := ih found
      omega

theorem fetch_append_left {first second : List (Line ι κ)} {base pc : Nat} {line : Line ι κ}
    (found : fetch stride first base pc = some line) : fetch stride (first ++ second) base pc = some line := by
  induction first generalizing base with
  | nil => cases found
  | cons head rest ih =>
    rw [List.cons_append, fetch]
    rw [fetch] at found
    split at found
    · rw [if_pos ‹_›]
      exact found
    · rw [if_neg ‹_›]
      exact ih found

theorem fetch_append_right (positive : ∀ instr, 0 < stride instr) {first second : List (Line ι κ)} {base pc : Nat}
    {line : Line ι κ} (found : fetch stride second (base + codeSize stride first) pc = some line) :
    fetch stride (first ++ second) base pc = some line := by
  induction first generalizing base with
  | nil => exact found
  | cons head rest ih =>
    have wide := positive head.instr
    have after := fetch_ge found
    rw [codeSize_cons] at found after
    rw [List.cons_append, fetch, if_neg (by omega)]
    apply ih
    rw [Nat.add_assoc]
    exact found

theorem fetch_append_cases {first second : List (Line ι κ)} {base pc : Nat} {line : Line ι κ}
    (found : fetch stride (first ++ second) base pc = some line) :
    fetch stride first base pc = some line ∨
      fetch stride second (base + codeSize stride first) pc = some line := by
  induction first generalizing base with
  | nil => exact .inr found
  | cons head rest ih =>
    rw [List.cons_append, fetch] at found
    rw [fetch, codeSize_cons, ← Nat.add_assoc]
    split at found
    · left
      rw [if_pos ‹_›]
      exact found
    · rw [if_neg ‹_›]
      exact ih found

end Layout

section Consistency
variable (stride : ι → Nat) (edges : Nat → ι → List κ → List (Nat × List κ))

def Accepts (code : List (Line ι κ)) (base : Nat) (labels : Nat → List κ → Prop) (pc : Nat) (facts : List κ) : Prop :=
  (∃ line, fetch stride code base pc = some line ∧ line.facts ⊆ facts) ∨ labels pc facts

def Consistent (code : List (Line ι κ)) (base : Nat) (labels : Nat → List κ → Prop) : Prop :=
  ∀ pc line, fetch stride code base pc = some line → ∀ edge ∈ edges pc line.instr line.facts,
    Accepts stride code base labels edge.1 edge.2

variable {stride edges} {code first second : List (Line ι κ)} {base pc : Nat}
variable {labels labels' : Nat → List κ → Prop} {facts : List κ}

theorem Accepts.mono (accepts : Accepts stride code base labels pc facts)
    (wider : labels pc facts → labels' pc facts) : Accepts stride code base labels' pc facts :=
  accepts.imp_right wider

theorem Accepts.append_left (accepts : Accepts stride first base labels pc facts)
    (outside : labels pc facts → Accepts stride (first ++ second) base labels' pc facts) :
    Accepts stride (first ++ second) base labels' pc facts := by
  rcases accepts with ⟨line, found, covers⟩ | label
  · exact .inl ⟨line, fetch_append_left found, covers⟩
  · exact outside label

theorem Accepts.append_right (positive : ∀ instr, 0 < stride instr)
    (accepts : Accepts stride second (base + codeSize stride first) labels pc facts)
    (outside : labels pc facts → Accepts stride (first ++ second) base labels' pc facts) :
    Accepts stride (first ++ second) base labels' pc facts := by
  rcases accepts with ⟨line, found, covers⟩ | label
  · exact .inl ⟨line, fetch_append_right positive found, covers⟩
  · exact outside label

theorem Consistent.append (positive : ∀ instr, 0 < stride instr) {labels₁ labels₂ : Nat → List κ → Prop}
    (one : Consistent stride edges first base labels₁)
    (two : Consistent stride edges second (base + codeSize stride first) labels₂)
    (leaves₁ : ∀ pc facts, labels₁ pc facts → Accepts stride (first ++ second) base labels pc facts)
    (leaves₂ : ∀ pc facts, labels₂ pc facts → Accepts stride (first ++ second) base labels pc facts) :
    Consistent stride edges (first ++ second) base labels := by
  intro pc line found edge member
  rcases fetch_append_cases found with inFirst | inSecond
  · exact (one pc line inFirst edge member).append_left (leaves₁ _ _)
  · exact (two pc line inSecond edge member).append_right positive (leaves₂ _ _)

theorem Consistent.relabel (consistent : Consistent stride edges code base labels)
    (leaves : ∀ pc facts, labels pc facts → Accepts stride code base labels' pc facts) :
    Consistent stride edges code base labels' := by
  intro pc line found edge member
  rcases consistent pc line found edge member with inside | label
  · exact .inl inside
  · exact leaves _ _ label

theorem Consistent.nil : Consistent stride edges [] base labels := by
  intro pc line found
  cases found

theorem Consistent.line {line : Line ι κ}
    (leaves : ∀ edge ∈ edges base line.instr line.facts, Accepts stride [line] base labels edge.1 edge.2) :
    Consistent stride edges [line] base labels := by
  intro pc line' found edge member
  rw [fetch] at found
  split at found
  · cases found
    subst ‹pc = base›
    exact leaves edge member
  · cases found

variable (stride edges)

def nowhere (_ : Nat) (_ : List κ) : Prop := False

def leavesAt (stop : Nat) (post : List κ) (pc : Nat) (facts : List κ) : Prop := pc = stop ∧ post ⊆ facts

structure Block (code : List (Line ι κ)) (base : Nat) (pre post : List κ) : Prop where
  consistent : Consistent stride edges code base (leavesAt (base + codeSize stride code) post)
  enters : Accepts stride code base (leavesAt (base + codeSize stride code) post) base pre

variable {stride edges} {pre mid post : List κ}

namespace Block

theorem nil (covers : post ⊆ pre) : Block stride edges [] base pre post :=
  ⟨Consistent.nil, .inr ⟨by simp, covers⟩⟩

theorem branching (positive : ∀ instr, 0 < stride instr)
    (one : Consistent stride edges first base fun pc facts =>
      leavesAt (base + codeSize stride first) mid pc facts ∨
        leavesAt (base + codeSize stride (first ++ second)) post pc facts)
    (enters : Accepts stride first base (leavesAt (base + codeSize stride first) mid) base pre)
    (two : Block stride edges second (base + codeSize stride first) mid post) :
    Block stride edges (first ++ second) base pre post := by
  have stop : base + codeSize stride (first ++ second) =
      base + codeSize stride first + codeSize stride second := by
    rw [codeSize_append, Nat.add_assoc]
  have leave : ∀ pc facts, leavesAt (base + codeSize stride first + codeSize stride second) post pc facts →
      Accepts stride (first ++ second) base (leavesAt (base + codeSize stride (first ++ second)) post) pc facts := by
    intro pc facts label
    rw [stop]
    exact .inr label
  have next : ∀ pc facts, leavesAt (base + codeSize stride first) mid pc facts →
      Accepts stride (first ++ second) base (leavesAt (base + codeSize stride (first ++ second)) post) pc facts := by
    rintro pc facts ⟨rfl, covers⟩
    rcases two.enters with ⟨line, found, low⟩ | ⟨here, low⟩
    · exact .inl ⟨line, fetch_append_right positive found, List.Subset.trans low covers⟩
    · exact leave _ _ ⟨here, List.Subset.trans low covers⟩
  refine ⟨one.append positive two.consistent ?_ leave, enters.append_left (next _ _)⟩
  rintro pc facts (label | label)
  · exact next _ _ label
  · exact .inr label

theorem append (positive : ∀ instr, 0 < stride instr) (one : Block stride edges first base pre mid)
    (two : Block stride edges second (base + codeSize stride first) mid post) :
    Block stride edges (first ++ second) base pre post :=
  branching positive (fun pc line found edge member => (one.consistent pc line found edge member).mono .inl)
    one.enters two

theorem line {line : Line ι κ} (covers : line.facts ⊆ pre)
    (leaves : ∀ edge ∈ edges base line.instr line.facts, edge.1 = base + stride line.instr ∧ post ⊆ edge.2) :
    Block stride edges [line] base pre post := by
  have stop : base + codeSize stride [line] = base + stride line.instr := by simp
  refine ⟨Consistent.line fun edge member => .inr ?_, .inl ⟨line, ?_, covers⟩⟩
  · rw [stop]
    exact leaves edge member
  · rw [fetch, if_pos rfl]

theorem skipping (positive : ∀ instr, 0 < stride instr) {jump : Line ι κ} (covers : jump.facts ⊆ pre)
    (leaves : ∀ edge ∈ edges base jump.instr jump.facts,
      leavesAt (base + stride jump.instr) mid edge.1 edge.2 ∨
        leavesAt (base + stride jump.instr + codeSize stride second) post edge.1 edge.2)
    (two : Block stride edges second (base + stride jump.instr) mid post) :
    Block stride edges (jump :: second) base pre post := by
  have width : base + stride jump.instr = base + codeSize stride [jump] := by simp
  have stop : base + stride jump.instr + codeSize stride second = base + codeSize stride ([jump] ++ second) := by
    simp [Nat.add_assoc]
  rw [stop, width] at leaves
  rw [width] at two
  exact branching positive (Consistent.line fun edge member => .inr (leaves edge member))
    (.inl ⟨jump, if_pos rfl, covers⟩) two

end Block

variable (stride edges) (code) (enters : Nat → List κ → Nat → List κ → Prop)

inductive Path : Nat → List κ → Prop where
  | start : Path 0 []
  | edge {pc : Nat} {facts : List κ} {line : Line ι κ} {edge : Nat × List κ} : Path pc facts →
      fetch stride code 0 pc = some line → edge ∈ edges pc line.instr facts → Path edge.1 edge.2
  | enter {pc target : Nat} {facts facts' : List κ} : Path pc facts → enters pc facts target facts' →
      Path target facts'

variable {stride edges code enters}

theorem Path.covered (consistent : Consistent stride edges code 0 nowhere)
    (monotone : ∀ pc instr low high, low ⊆ high → ∀ edge ∈ edges pc instr high,
      ∃ edge' ∈ edges pc instr low, edge'.1 = edge.1 ∧ edge'.2 ⊆ edge.2)
    (begins : Accepts stride code 0 nowhere 0 [])
    (handled : ∀ pc facts target facts', enters pc facts target facts' → Accepts stride code 0 nowhere target facts')
    (path : Path stride edges code enters pc facts) : Accepts stride code 0 nowhere pc facts := by
  induction path with
  | start => exact begins
  | enter _ entered => exact handled _ _ _ _ entered
  | @edge pc facts line edge _ found member ih =>
    obtain ⟨line', found', covers⟩ | label := ih
    · obtain rfl : line = line' := Option.some.inj (found.symm.trans found')
      obtain ⟨edge', member', same, low⟩ := monotone pc line.instr line.facts facts covers edge member
      rcases consistent pc line found edge' member' with ⟨next, there, fits⟩ | label
      · exact .inl ⟨next, same ▸ there, List.Subset.trans fits low⟩
      · exact label.elim
    · exact label.elim

end Consistency

end NLang.Library.AnnotatedCode
