import Mathlib

/-!
# The guard of default arguments

`DefaultEmitGuard` of `EmitCall.cpp`, around the bindings of a call of a function or method (`EmitFormalBindingArgs`),
of a constructor (`EmitCtorInvocation`) and of `super` (`EmitSuperCtorCall`). The functions of the program are a finite
type. Emission enters default expressions for a number of levels, and gives nothing where these are not enough.
-/

namespace NLang.Backend.DefaultEmit

mutual

inductive Expr (F : Type) where
  /-- Everything that emits its operands one after the other: calls without an `SnFunction` also do. -/
  | other (operands : Operands F)
  | call (receiver : Operands F) (callee : F) (bindings : Bindings F)

inductive Operands (F : Type) where
  | nil
  | cons (first : Expr F) (rest : Operands F)

inductive Bindings (F : Type) where
  | nil
  | supplied (arg : Expr F) (rest : Bindings F)
  | omitted (formal : Nat) (rest : Bindings F)

end

variable {F : Type}

def Operands.toList : Operands F → List (Expr F)
  | .nil => []
  | .cons first rest => first :: rest.toList

namespace Bindings

def supplies : Bindings F → List (Expr F)
  | .nil => []
  | .supplied arg rest => arg :: rest.supplies
  | .omitted _ rest => rest.supplies

def omits : Bindings F → List Nat
  | .nil => []
  | .supplied _ rest => rest.omits
  | .omitted formal rest => formal :: rest.omits

def bindingsEmitDefaults : Bindings F → Bool
  | .nil => false
  | .supplied _ rest => rest.bindingsEmitDefaults
  | .omitted _ _ => true

end Bindings

abbrev Defaults (F : Type) := F → Nat → Expr F

/-- Nothing without enough levels; the callee that the guard rejects; or the calls in the order of their dispatch. -/
abbrev Emitted (F : Type) := Option (Except F (List F))

def Emitted.andThen (first second : Emitted F) : Emitted F :=
  match first with
  | some (.ok calls) => second.map (·.map (calls ++ ·))
  | stopped => stopped

section Emit
variable [DecidableEq F] (value : List F → F → Nat → Emitted F)

mutual

def emitWith (defaultEmitting : List F) : Expr F → Emitted F
  | .other operands => emitOperands defaultEmitting operands
  | .call receiver callee bindings =>
    (emitOperands defaultEmitting receiver).andThen <|
      Emitted.andThen
        (if bindings.bindingsEmitDefaults then
          if callee ∈ defaultEmitting then some (.error callee)
          else emitBindings (callee :: defaultEmitting) callee bindings
        else emitBindings defaultEmitting callee bindings)
        (some (.ok [callee]))

def emitOperands (defaultEmitting : List F) : Operands F → Emitted F
  | .nil => some (.ok [])
  | .cons first rest => (emitWith defaultEmitting first).andThen (emitOperands defaultEmitting rest)

def emitBindings (defaultEmitting : List F) (callee : F) : Bindings F → Emitted F
  | .nil => some (.ok [])
  | .supplied arg rest => (emitWith defaultEmitting arg).andThen (emitBindings defaultEmitting callee rest)
  | .omitted formal rest =>
    (value defaultEmitting callee formal).andThen (emitBindings defaultEmitting callee rest)

end

def emit (defaults : Defaults F) : Nat → List F → Expr F → Emitted F
  | 0, _, _ => none
  | levels + 1, defaultEmitting, e =>
    emitWith (fun inner callee formal => emit defaults levels inner (defaults callee formal)) defaultEmitting e

def Rejects (defaults : Defaults F) (levels : Nat) (e : Expr F) : Prop :=
  ∃ callee, emit defaults levels [] e = some (.error callee)

end Emit

section Expansion
variable (defaults : Defaults F)

def staged (callee : F) : Bindings F → List (Expr F)
  | .nil => []
  | .supplied arg rest => arg :: staged callee rest
  | .omitted formal rest => defaults callee formal :: staged callee rest

def parts : Expr F → List (Expr F)
  | .other operands => operands.toList
  | .call receiver callee bindings => receiver.toList ++ staged defaults callee bindings

def Occurs : Expr F → Expr F → Prop := Relation.ReflTransGen fun e part => part ∈ parts defaults e

def Defaulting (e : Expr F) (callee : F) : Prop :=
  ∃ receiver bindings, Occurs defaults e (.call receiver callee bindings) ∧ bindings.bindingsEmitDefaults = true

def RecursiveDefault (e : Expr F) : Prop :=
  ∃ receiver callee bindings, Occurs defaults e (.call receiver callee bindings) ∧
    ∃ formal ∈ bindings.omits, Defaulting defaults (defaults callee formal) callee

def SuppliedNesting (e : Expr F) : Prop :=
  ∃ receiver callee bindings, Occurs defaults e (.call receiver callee bindings) ∧
    bindings.bindingsEmitDefaults = true ∧ ∃ arg ∈ bindings.supplies, Defaulting defaults arg callee

def Clash (defaultEmitting : List F) (e : Expr F) : Prop :=
  ∃ receiver callee bindings, Occurs defaults e (.call receiver callee bindings) ∧
    bindings.bindingsEmitDefaults = true ∧
    (callee ∈ defaultEmitting ∨ ∃ part ∈ staged defaults callee bindings, Defaulting defaults part callee)

variable {defaults}

theorem bindingsEmitDefaults_iff : ∀ bindings : Bindings F,
    bindings.bindingsEmitDefaults = true ↔ bindings.omits ≠ []
  | .nil => ⟨nofun, fun some_ => absurd rfl some_⟩
  | .supplied _ rest => bindingsEmitDefaults_iff rest
  | .omitted _ _ => ⟨fun _ => List.cons_ne_nil _ _, fun _ => rfl⟩

theorem mem_staged {callee : F} {part : Expr F} : ∀ bindings : Bindings F,
    part ∈ staged defaults callee bindings ↔
      part ∈ bindings.supplies ∨ ∃ formal ∈ bindings.omits, defaults callee formal = part
  | .nil => ⟨nofun, by rintro (inside | ⟨formal, inside, -⟩) <;> cases inside⟩
  | .supplied arg rest => by
      rw [staged, List.mem_cons, mem_staged rest, Bindings.supplies, List.mem_cons, or_assoc, Bindings.omits]
  | .omitted formal rest => by
      rw [staged, List.mem_cons, mem_staged rest, Bindings.omits, List.exists_mem_cons_iff, or_left_comm,
        Bindings.supplies, eq_comm]

theorem occurs_cases {e found : Expr F} :
    Occurs defaults e found ↔ e = found ∨ ∃ part ∈ parts defaults e, Occurs defaults part found :=
  Relation.ReflTransGen.cases_head_iff

section Clash
variable {defaultEmitting : List F} {callee : F}

theorem Clash.part {e part : Expr F} (inside : part ∈ parts defaults e)
    (clash : Clash defaults defaultEmitting part) : Clash defaults defaultEmitting e := by
  obtain ⟨receiver, callee, bindings, occurs, rest⟩ := clash
  exact ⟨receiver, callee, bindings, .head inside occurs, rest⟩

theorem Clash.cons {e : Expr F} (clash : Clash defaults defaultEmitting e) :
    Clash defaults (callee :: defaultEmitting) e := by
  obtain ⟨receiver, other, bindings, occurs, armed, rest⟩ := clash
  exact ⟨receiver, other, bindings, occurs, armed, rest.imp_left (List.mem_cons_of_mem callee)⟩

theorem clash_other {operands : Operands F} : Clash defaults defaultEmitting (.other operands) ↔
    ∃ e ∈ operands.toList, Clash defaults defaultEmitting e := by
  constructor
  · rintro ⟨receiver, callee, bindings, occurs, rest⟩
    obtain same | ⟨part, inside, occurs⟩ := occurs_cases.mp occurs
    · cases same
    · exact ⟨part, inside, receiver, callee, bindings, occurs, rest⟩
  · rintro ⟨e, inside, clash⟩
    exact Clash.part inside clash

theorem clash_call_plain {receiver : Operands F} {bindings : Bindings F}
    (unarmed : bindings.bindingsEmitDefaults = false) :
    Clash defaults defaultEmitting (.call receiver callee bindings) ↔
      (∃ e ∈ receiver.toList, Clash defaults defaultEmitting e) ∨
        ∃ part ∈ staged defaults callee bindings, Clash defaults defaultEmitting part := by
  constructor
  · rintro ⟨receiver', other, bindings', occurs, armed, rest⟩
    obtain same | ⟨part, inside, occurs⟩ := occurs_cases.mp occurs
    · cases same
      rw [unarmed] at armed
      cases armed
    · have clash : Clash defaults defaultEmitting part := ⟨receiver', other, bindings', occurs, armed, rest⟩
      exact (List.mem_append.mp inside).imp (fun inside => ⟨part, inside, clash⟩)
        fun inside => ⟨part, inside, clash⟩
  · rintro (⟨e, inside, clash⟩ | ⟨part, inside, clash⟩)
    · exact Clash.part (List.mem_append_left _ inside) clash
    · exact Clash.part (List.mem_append_right _ inside) clash

theorem clash_call_armed {receiver : Operands F} {bindings : Bindings F}
    (armed : bindings.bindingsEmitDefaults = true) :
    Clash defaults defaultEmitting (.call receiver callee bindings) ↔
      (∃ e ∈ receiver.toList, Clash defaults defaultEmitting e) ∨ callee ∈ defaultEmitting ∨
        ∃ part ∈ staged defaults callee bindings, Clash defaults (callee :: defaultEmitting) part := by
  constructor
  · rintro ⟨receiver', other, bindings', occurs, armed', rest⟩
    obtain same | ⟨part, inside, occurs⟩ := occurs_cases.mp occurs
    · cases same
      refine .inr (rest.imp_right ?_)
      rintro ⟨part, inside, receiver', bindings', occurs, armed'⟩
      exact ⟨part, inside, receiver', callee, bindings', occurs, armed', .inl List.mem_cons_self⟩
    · have clash : Clash defaults defaultEmitting part := ⟨receiver', other, bindings', occurs, armed', rest⟩
      exact (List.mem_append.mp inside).imp (fun inside => ⟨part, inside, clash⟩)
        fun inside => .inr ⟨part, inside, clash.cons⟩
  · rintro (⟨e, inside, clash⟩ | underWay | ⟨part, inside, receiver', other, bindings', occurs, armed', rest⟩)
    · exact Clash.part (List.mem_append_left _ inside) clash
    · exact ⟨receiver, callee, bindings, .refl, armed, .inl underWay⟩
    · rcases rest with underWay | inner
      · rcases List.mem_cons.mp underWay with rfl | underWay
        · exact ⟨receiver, other, bindings, .refl, armed,
            .inr ⟨part, inside, receiver', bindings', occurs, armed'⟩⟩
        · exact Clash.part (List.mem_append_right _ inside)
            ⟨receiver', other, bindings', occurs, armed', .inl underWay⟩
      · exact Clash.part (List.mem_append_right _ inside) ⟨receiver', other, bindings', occurs, armed', .inr inner⟩

end Clash

theorem clash_nil {e : Expr F} :
    Clash defaults [] e ↔ RecursiveDefault defaults e ∨ SuppliedNesting defaults e := by
  constructor
  · rintro ⟨receiver, callee, bindings, occurs, armed, underWay | ⟨part, inside, needs⟩⟩
    · exact absurd underWay List.not_mem_nil
    · rcases (mem_staged bindings).mp inside with supplied | ⟨formal, omitted, rfl⟩
      · exact .inr ⟨receiver, callee, bindings, occurs, armed, part, supplied, needs⟩
      · exact .inl ⟨receiver, callee, bindings, occurs, formal, omitted, needs⟩
  · rintro (⟨receiver, callee, bindings, occurs, formal, omitted, needs⟩ |
      ⟨receiver, callee, bindings, occurs, armed, arg, supplied, needs⟩)
    · have armed := (bindingsEmitDefaults_iff bindings).mpr (List.ne_nil_of_mem omitted)
      exact ⟨receiver, callee, bindings, occurs, armed,
        .inr ⟨_, (mem_staged bindings).mpr (.inr ⟨formal, omitted, rfl⟩), needs⟩⟩
    · exact ⟨receiver, callee, bindings, occurs, armed,
        .inr ⟨arg, (mem_staged bindings).mpr (.inl supplied), needs⟩⟩

end Expansion

def Settles (emitted : Emitted F) (rejected : Prop) : Prop :=
  (∃ calls, emitted = some (.ok calls)) ∧ ¬ rejected ∨ (∃ callee, emitted = some (.error callee)) ∧ rejected

namespace Settles
variable {emitted second : Emitted F} {p q : Prop}

theorem ok (calls : List F) (fine : ¬ p) : Settles (some (.ok calls)) p := .inl ⟨⟨calls, rfl⟩, fine⟩

theorem congr (settles : Settles emitted p) (same : p ↔ q) : Settles emitted q := by
  rwa [← propext same]

theorem andThen (first : Settles emitted p) (next : Settles second q) : Settles (emitted.andThen second) (p ∨ q) := by
  rcases first with ⟨⟨calls, rfl⟩, fine⟩ | ⟨⟨callee, rfl⟩, bad⟩
  · rcases next with ⟨⟨calls', rfl⟩, fine'⟩ | ⟨⟨callee, rfl⟩, bad⟩
    · exact .inl ⟨⟨calls ++ calls', rfl⟩, not_or.mpr ⟨fine, fine'⟩⟩
    · exact .inr ⟨⟨callee, rfl⟩, .inr bad⟩
  · exact .inr ⟨⟨callee, rfl⟩, .inl bad⟩

theorem error_iff (settles : Settles emitted p) : (∃ callee, emitted = some (.error callee)) ↔ p := by
  rcases settles with ⟨⟨calls, rfl⟩, fine⟩ | ⟨failed, bad⟩
  · refine ⟨?_, fun bad => absurd bad fine⟩
    rintro ⟨callee, failed⟩
    cases failed
  · exact ⟨fun _ => bad, fun _ => failed⟩

theorem exists_outcome (settles : Settles emitted p) : ∃ outcome, emitted = some outcome := by
  rcases settles with ⟨⟨calls, done⟩, -⟩ | ⟨⟨callee, failed⟩, -⟩
  · exact ⟨_, done⟩
  · exact ⟨_, failed⟩

end Settles

def Enters (defaults : Defaults F) (value : List F → F → Nat → Emitted F) (size : Nat) : Prop :=
  ∀ (inner : List F) (callee : F) (formal : Nat), (callee :: inner).Nodup → size ≤ inner.length →
    Settles (value (callee :: inner) callee formal) (Clash defaults (callee :: inner) (defaults callee formal))

section Levels
variable [DecidableEq F] {defaults : Defaults F} {value : List F → F → Nat → Emitted F} {size : Nat}

mutual

theorem emitWith_settles (enters : Enters defaults value size) :
    ∀ (e : Expr F) (defaultEmitting : List F), defaultEmitting.Nodup → size ≤ defaultEmitting.length →
      Settles (emitWith value defaultEmitting e) (Clash defaults defaultEmitting e)
  | .other operands, defaultEmitting, nodup, large => by
      rw [emitWith]
      exact (emitOperands_settles enters operands defaultEmitting nodup large).congr clash_other.symm
  | .call receiver callee bindings, defaultEmitting, nodup, large => by
      rw [emitWith]
      have first := emitOperands_settles enters receiver defaultEmitting nodup large
      cases armed : bindings.bindingsEmitDefaults with
      | false =>
        rw [if_neg Bool.false_ne_true]
        have nothing : ∀ formal ∈ bindings.omits, Settles (value defaultEmitting callee formal)
            (Clash defaults defaultEmitting (defaults callee formal)) := by
          intro formal omitted
          have := (bindingsEmitDefaults_iff bindings).mpr (List.ne_nil_of_mem omitted)
          rw [armed] at this
          cases this
        have second := emitBindings_settles enters bindings callee defaultEmitting nodup large nothing
        refine (first.andThen (second.andThen (Settles.ok [callee] not_false))).congr ?_
        rw [or_false, clash_call_plain armed]
      | true =>
        rw [if_pos rfl, clash_call_armed armed]
        refine first.andThen ?_
        by_cases underWay : callee ∈ defaultEmitting
        · rw [if_pos underWay]
          exact .inr ⟨⟨callee, rfl⟩, .inl underWay⟩
        · rw [if_neg underWay]
          have nodup' := List.nodup_cons.mpr ⟨underWay, nodup⟩
          have second := emitBindings_settles enters bindings callee (callee :: defaultEmitting) nodup'
            (large.trans (Nat.le_succ _)) fun formal _ => enters defaultEmitting callee formal nodup' large
          refine (second.andThen (Settles.ok [callee] not_false)).congr ?_
          rw [or_false, or_iff_right underWay]

theorem emitOperands_settles (enters : Enters defaults value size) :
    ∀ (operands : Operands F) (defaultEmitting : List F), defaultEmitting.Nodup →
      size ≤ defaultEmitting.length →
      Settles (emitOperands value defaultEmitting operands)
        (∃ e ∈ operands.toList, Clash defaults defaultEmitting e)
  | .nil, _, _, _ => Settles.ok [] (fun ⟨_, inside, _⟩ => List.not_mem_nil inside)
  | .cons first rest, defaultEmitting, nodup, large => by
      rw [emitOperands]
      exact ((emitWith_settles enters first defaultEmitting nodup large).andThen
        (emitOperands_settles enters rest defaultEmitting nodup large)).congr (List.exists_mem_cons_iff ..).symm

theorem emitBindings_settles (enters : Enters defaults value size) :
    ∀ (bindings : Bindings F) (callee : F) (defaultEmitting : List F), defaultEmitting.Nodup →
      size ≤ defaultEmitting.length →
      (∀ formal ∈ bindings.omits, Settles (value defaultEmitting callee formal)
        (Clash defaults defaultEmitting (defaults callee formal))) →
      Settles (emitBindings value defaultEmitting callee bindings)
        (∃ part ∈ staged defaults callee bindings, Clash defaults defaultEmitting part)
  | .nil, _, _, _, _, _ => Settles.ok [] (fun ⟨_, inside, _⟩ => List.not_mem_nil inside)
  | .supplied arg rest, callee, defaultEmitting, nodup, large, omitted => by
      rw [emitBindings]
      exact ((emitWith_settles enters arg defaultEmitting nodup large).andThen
        (emitBindings_settles enters rest callee defaultEmitting nodup large omitted)).congr
          (List.exists_mem_cons_iff ..).symm
  | .omitted formal rest, callee, defaultEmitting, nodup, large, omitted => by
      rw [emitBindings]
      refine ((omitted formal List.mem_cons_self).andThen ?_).congr (List.exists_mem_cons_iff ..).symm
      exact emitBindings_settles enters rest callee defaultEmitting nodup large
        fun other inside => omitted other (List.mem_cons_of_mem _ inside)

end

theorem emit_settles [Fintype F] (levels : Nat) (defaultEmitting : List F) (e : Expr F)
    (nodup : defaultEmitting.Nodup) (enough : Fintype.card F < levels + defaultEmitting.length) :
    Settles (emit defaults levels defaultEmitting e) (Clash defaults defaultEmitting e) := by
  induction levels generalizing defaultEmitting e with
  | zero => exact absurd nodup.length_le_card (by omega)
  | succ levels ih =>
    refine emitWith_settles ?_ e defaultEmitting nodup (Nat.le_refl _)
    intro inner callee formal nodup' large
    refine ih (callee :: inner) (defaults callee formal) nodup' ?_
    rw [List.length_cons]
    omega

end Levels

/-- The guard rejects every call that nests in a call of the same callee where both need defaults. This is exact but
for calls in supplied arguments. -/
theorem defaultEmitGuard_exact_iff {F : Type} [DecidableEq F] [Fintype F] (defaults : Defaults F) (e : Expr F)
    (more : Nat) :
    (∃ outcome, emit defaults (Fintype.card F + 1 + more) [] e = some outcome) ∧
      ((Rejects defaults (Fintype.card F + 1 + more) e ↔ RecursiveDefault defaults e) ↔
        (SuppliedNesting defaults e → RecursiveDefault defaults e)) := by
  have settles : Settles (emit defaults (Fintype.card F + 1 + more) [] e) _ :=
    emit_settles _ [] e List.nodup_nil (by rw [List.length_nil]; omega)
  refine ⟨settles.exists_outcome, ?_⟩
  have rejects : Rejects defaults _ e ↔ _ := settles.error_iff.trans clash_nil
  rw [rejects]
  constructor
  · intro exact_ nesting
    exact exact_.mp (.inr nesting)
  · intro harmless
    exact ⟨fun rejected => rejected.elim id harmless, .inl⟩

def nestedCall : Expr Unit :=
  .call .nil () (.supplied (.call .nil () (.supplied (.other .nil) (.omitted 1 .nil))) (.omitted 1 .nil))

theorem defaultEmitGuard_rejects_nestedCall :
    ¬ (Rejects (fun _ _ => .other .nil) (Fintype.card Unit + 1) nestedCall ↔
      RecursiveDefault (fun _ _ => .other .nil) nestedCall) := by
  intro exact_
  obtain ⟨receiver, callee, bindings, -, formal, -, receiver', bindings', occurs, -⟩ := exact_.mp ⟨(), rfl⟩
  obtain same | ⟨part, inside, -⟩ := occurs_cases.mp occurs
  · cases same
  · exact List.not_mem_nil inside

end NLang.Backend.DefaultEmit
