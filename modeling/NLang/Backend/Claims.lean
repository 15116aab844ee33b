import NLang.Backend.FuncContext

/-!
# Where operands wait

What the emission of an expression claims from the evaluation area and which values wait where while a safepoint
can pass. Positions of claims start at the cursor, which nested emissions move on. The result slot of an
expression is its user's: what waits there is a spill.
-/

namespace NLang.Backend
open NLang.Vm

abbrev EvalSlotClass := BitVec 2

def escNone : EvalSlotClass := 0#2
def escStrHandle : EvalSlotClass := 1#2
def escHeapIndex : EvalSlotClass := 2#2
def escDual : EvalSlotClass := 3#2

structure Claim where
  base : Nat
  slots : Nat
  slotClass : EvalSlotClass := escDual

def Claim.holds (claim : Claim) (position : Nat) : Prop :=
  claim.base ≤ position ∧ position < claim.base + claim.slots

instance (claim : Claim) (position : Nat) : Decidable (claim.holds position) :=
  inferInstanceAs (Decidable (_ ∧ _))

variable {ν : Type}

def Expr.spills : Expr ν → List DeclType
  | .value _ | .name _ _ _ | .staged _ _ _ | .rows _ _ => []
  | .inPlace operand _ => operand.spills
  | .render operand => operand.spills ++ [operand.type]
  | .logical left right => left.spills ++ right.spills
  | .binary left right _ => left.spills ++ if right.calls then [left.type] else []
  | .method receiver args calls _ =>
    receiver.spills ++ if args.calls || calls then [receiver.type] else []
  | .delegate receiver _ _ => receiver.spills ++ [receiver.type]
  | .construct _ entries calls type => if calls || entries.calls then [type] else []

def Operands.types : Operands ν → List DeclType
  | .nil => []
  | .cons first rest => first.type :: rest.types

mutual

def Expr.claims (cursor : Nat) : Expr ν → List Claim
  | .value _ | .name _ _ _ => []
  | .inPlace operand _ | .render operand => operand.claims cursor
  | .logical left right => left.claims cursor ++ right.claims cursor
  | .binary left right _ =>
    { base := cursor, slots := 1 } :: left.claims (cursor + 1) ++ right.claims (cursor + 1)
  | .staged parts _ _ =>
    { base := cursor, slots := parts.length } :: parts.claims (cursor + parts.length)
  | .method receiver args _ _ =>
    receiver.claims cursor ++
      { base := cursor, slots := 1 + args.length } :: args.claims (cursor + (1 + args.length))
  | .delegate receiver args _ =>
    receiver.claims cursor ++ { base := cursor, slots := 1, slotClass := escHeapIndex } ::
      { base := cursor + 1, slots := args.length } :: args.claims (cursor + 1 + args.length)
  | .construct args entries _ _ => args.claims cursor ++ entries.claims cursor
  | .rows entries _ =>
    { base := cursor, slots := entries.length, slotClass := escHeapIndex } ::
      entries.claims (cursor + entries.length)

def Operands.claims (cursor : Nat) : Operands ν → List Claim
  | .nil => []
  | .cons first rest => first.claims cursor ++ rest.claims cursor

def Stagings.claims (cursor : Nat) : Stagings ν → List Claim
  | .nil => []
  | .cons lead parts _ rest =>
    { base := cursor, slots := lead + parts.length } ::
      parts.claims (cursor + (lead + parts.length)) ++ rest.claims cursor

end

mutual

def Expr.parks (cursor : Nat) : Expr ν → List (Nat × DeclType)
  | .value _ | .name _ _ _ => []
  | .inPlace operand _ | .render operand => operand.parks cursor
  | .logical left right => left.parks cursor ++ right.parks cursor
  | .binary left right _ =>
    left.parks (cursor + 1) ++ right.spills.map (cursor, ·) ++ right.parks (cursor + 1)
  | .staged parts calls _ => parts.parks cursor (cursor + parts.length) calls
  | .method receiver args calls _ =>
    receiver.parks cursor ++ (if args.calls || calls then [(cursor, receiver.type)] else []) ++
      args.parks (cursor + 1) (cursor + (1 + args.length)) calls
  | .delegate receiver args _ =>
    receiver.parks cursor ++ (cursor, .func) ::
      args.parks (cursor + 1) (cursor + 1 + args.length) true
  | .construct args entries _ type => args.parks type cursor ++ entries.parks type cursor
  | .rows entries _ => entries.parks cursor (cursor + entries.length) false

def Operands.parks (slot cursor : Nat) (calls : Bool) : Operands ν → List (Nat × DeclType)
  | .nil => []
  | .cons first rest =>
    first.spills.map (slot, ·) ++ first.parks cursor ++
      (if rest.calls || calls then [(slot, first.type)] else []) ++ rest.parks (slot + 1) cursor calls

def Stagings.parks (built : DeclType) (cursor : Nat) : Stagings ν → List (Nat × DeclType)
  | .nil => []
  | .cons lead parts calls rest =>
    (if 0 < lead ∧ calls then [(cursor, built)] else []) ++
      parts.parks (cursor + lead) (cursor + (lead + parts.length)) calls ++ rest.parks built cursor

end

mutual

def Expr.passes : Expr ν → List (List DeclType)
  | .value _ | .name _ _ _ => []
  | .inPlace operand _ => operand.passes
  | .render operand => operand.passes ++ [[operand.type]]
  | .logical left right | .binary left right _ => left.passes ++ right.passes
  | .staged parts calls _ => parts.passes ++ if calls then [parts.types] else []
  | .method receiver args calls _ =>
    receiver.passes ++ args.passes ++ if calls then [receiver.type :: args.types] else []
  | .delegate receiver args _ => receiver.passes ++ args.passes ++ [args.types]
  | .construct args entries calls type =>
    args.passes type ++ (if calls then [[type]] else []) ++ entries.passes type
  | .rows entries _ => entries.passes

def Operands.passes : Operands ν → List (List DeclType)
  | .nil => []
  | .cons first rest => first.passes ++ rest.passes

def Stagings.passes (built : DeclType) : Stagings ν → List (List DeclType)
  | .nil => []
  | .cons lead parts calls rest =>
    parts.passes ++ (if calls then [List.replicate lead built ++ parts.types] else []) ++
      rest.passes built

end

mutual

theorem Expr.le_claims : (e : Expr ν) → (cursor : Nat) → ∀ claim ∈ e.claims cursor, cursor ≤ claim.base
  | .value _, _ | .name _ _ _, _ => by simp [Expr.claims]
  | .inPlace operand _, cursor | .render operand, cursor => operand.le_claims cursor
  | .logical left right, cursor => by
      have first := left.le_claims cursor
      have second := right.le_claims cursor
      grind [Expr.claims]
  | .binary left right _, cursor => by
      have first := left.le_claims (cursor + 1)
      have second := right.le_claims (cursor + 1)
      grind [Expr.claims]
  | .staged parts _ _, cursor => by
      have inner := parts.le_claims (cursor + parts.length)
      grind [Expr.claims]
  | .method receiver args _ _, cursor => by
      have first := receiver.le_claims cursor
      have second := args.le_claims (cursor + (1 + args.length))
      grind [Expr.claims]
  | .delegate receiver args _, cursor => by
      have first := receiver.le_claims cursor
      have second := args.le_claims (cursor + 1 + args.length)
      grind [Expr.claims]
  | .construct args entries _ _, cursor => by
      have first := args.le_claims cursor
      have second := entries.le_claims cursor
      grind [Expr.claims]
  | .rows entries _, cursor => by
      have inner := entries.le_claims (cursor + entries.length)
      grind [Expr.claims]

theorem Operands.le_claims : (operands : Operands ν) → (cursor : Nat) →
    ∀ claim ∈ operands.claims cursor, cursor ≤ claim.base
  | .nil, _ => by simp [Operands.claims]
  | .cons first rest, cursor => by
      have head := first.le_claims cursor
      have tail := rest.le_claims cursor
      grind [Operands.claims]

theorem Stagings.le_claims : (stagings : Stagings ν) → (cursor : Nat) →
    ∀ claim ∈ stagings.claims cursor, cursor ≤ claim.base
  | .nil, _ => by simp [Stagings.claims]
  | .cons lead parts _ rest, cursor => by
      have inner := parts.le_claims (cursor + (lead + parts.length))
      have tail := rest.le_claims cursor
      grind [Stagings.claims]

end

def Claimed (claims : List Claim) (position : Nat) : Prop := ∃ claim ∈ claims, claim.holds position

theorem Claimed.append {first second : List Claim} {position : Nat} :
    Claimed (first ++ second) position ↔ Claimed first position ∨ Claimed second position := by
  simp only [Claimed, List.mem_append, or_and_right, exists_or]

theorem Claimed.cons {claim : Claim} {rest : List Claim} {position : Nat} :
    Claimed (claim :: rest) position ↔ claim.holds position ∨ Claimed rest position := by
  simp [Claimed]

mutual

theorem Expr.parks_claimed : (e : Expr ν) → (cursor : Nat) →
    ∀ park ∈ e.parks cursor, Claimed (e.claims cursor) park.1
  | .value _, _ | .name _ _ _, _ => by simp [Expr.parks]
  | .inPlace operand _, cursor | .render operand, cursor => operand.parks_claimed cursor
  | .logical left right, cursor => by
      have first := left.parks_claimed cursor
      have second := right.parks_claimed cursor
      grind [Expr.parks, Expr.claims, Claimed.append]
  | .binary left right _, cursor => by
      have first := left.parks_claimed (cursor + 1)
      have second := right.parks_claimed (cursor + 1)
      grind [Expr.parks, Expr.claims, Claimed.append, Claimed.cons, Claim.holds]
  | .staged parts calls _, cursor => by
      have inner := parts.parks_claimed cursor (cursor + parts.length) calls
      grind [Expr.parks, Expr.claims, Claimed.cons, Claim.holds]
  | .method receiver args calls _, cursor => by
      have first := receiver.parks_claimed cursor
      have second := args.parks_claimed (cursor + 1) (cursor + (1 + args.length)) calls
      grind [Expr.parks, Expr.claims, Claimed.append, Claimed.cons, Claim.holds]
  | .delegate receiver args _, cursor => by
      have first := receiver.parks_claimed cursor
      have second := args.parks_claimed (cursor + 1) (cursor + 1 + args.length) true
      grind [Expr.parks, Expr.claims, Claimed.append, Claimed.cons, Claim.holds]
  | .construct args entries _ type, cursor => by
      have first := args.parks_claimed type cursor
      have second := entries.parks_claimed type cursor
      grind [Expr.parks, Expr.claims, Claimed.append]
  | .rows entries _, cursor => by
      have inner := entries.parks_claimed cursor (cursor + entries.length) false
      grind [Expr.parks, Expr.claims, Claimed.cons, Claim.holds]

theorem Operands.parks_claimed : (operands : Operands ν) → (slot cursor : Nat) → (calls : Bool) →
    ∀ park ∈ operands.parks slot cursor calls,
      (slot ≤ park.1 ∧ park.1 < slot + operands.length) ∨ Claimed (operands.claims cursor) park.1
  | .nil, _, _, _ => by simp [Operands.parks]
  | .cons first rest, slot, cursor, calls => by
      have head := first.parks_claimed cursor
      have tail := rest.parks_claimed (slot + 1) cursor calls
      grind [Operands.parks, Operands.claims, Operands.length, Claimed.append]

theorem Stagings.parks_claimed : (stagings : Stagings ν) → (built : DeclType) → (cursor : Nat) →
    ∀ park ∈ stagings.parks built cursor, Claimed (stagings.claims cursor) park.1
  | .nil, _, _ => by simp [Stagings.parks]
  | .cons lead parts calls rest, built, cursor => by
      have inner := parts.parks_claimed (cursor + lead) (cursor + (lead + parts.length)) calls
      have tail := rest.parks_claimed built cursor
      grind [Stagings.parks, Stagings.claims, Claimed.append, Claimed.cons, Claim.holds]

end

end NLang.Backend
