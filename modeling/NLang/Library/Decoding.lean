import NLang.Library.Words

/-!
# Encoders and decoders with a state

An encoder gives bytes or refuses, a decoder consumes the front of its input or refuses, and both
thread a state. `Decodes` says what a decoder makes of one encoding in front of any input: the value
and the next state, or a refusal.
-/

namespace NLang.Library.Decoding
open Words

variable {σ τ α β : Type}

def Encoder (σ : Type) := σ → Option (Bytes × σ)

namespace Encoder

def emit (bytes : Bytes) : Encoder σ := fun state => some (bytes, state)
def refuse : Encoder σ := fun _ => none

def andThen (first second : Encoder σ) : Encoder σ := fun state => do
  let (front, middle) ← first state
  let (back, last) ← second middle
  return (front ++ back, last)

def all (encode : τ → Encoder σ) : List τ → Encoder σ
  | [] => emit []
  | item :: items => andThen (encode item) (all encode items)

def all₂ (encode : τ → α → Encoder σ) : List τ → List α → Encoder σ
  | [], [] => emit []
  | item :: items, value :: values => andThen (encode item value) (all₂ encode items values)
  | _, _ => refuse

theorem andThen_eq_some {first second : Encoder σ} {state last : σ} {bytes : Bytes} :
    andThen first second state = some (bytes, last) ↔
      ∃ front middle back, first state = some (front, middle) ∧
        second middle = some (back, last) ∧ bytes = front ++ back := by
  simp only [andThen, Option.bind_eq_bind, Option.bind_eq_some_iff]
  constructor
  · rintro ⟨⟨front, middle⟩, one, ⟨back, _⟩, two, same⟩
    cases same
    exact ⟨front, middle, back, one, two, rfl⟩
  · rintro ⟨front, middle, back, one, two, rfl⟩
    exact ⟨(front, middle), one, (back, last), two, rfl⟩

@[simp] theorem emit_eq_some {bytes out : Bytes} {state last : σ} :
    emit bytes state = some (out, last) ↔ bytes = out ∧ state = last := by
  simp [emit]

@[simp] theorem refuse_eq_some {out : Bytes} {state last : σ} :
    ¬ refuse state = some (out, last) := nofun

end Encoder

def Decoder (σ α : Type) := Bytes → σ → Option (α × Bytes × σ)

namespace Decoder

instance : Monad (Decoder σ) where
  pure value := fun bytes state => some (value, bytes, state)
  bind first next := fun bytes state =>
    (first bytes state).bind fun (value, rest, middle) => next value rest middle

def fail : Decoder σ α := fun _ _ => none

def take (count : Nat) : Decoder σ Bytes := fun bytes state =>
  if count ≤ bytes.length then some (bytes.take count, bytes.drop count, state) else none

def word (width : Nat) : Decoder σ Nat := do return wordOf (← take width)

def get : Decoder σ σ := fun bytes state => some (state, bytes, state)
def modify (change : σ → σ) : Decoder σ Unit := fun bytes state => some ((), bytes, change state)

def all (decode : τ → Decoder σ α) : List τ → Decoder σ (List α)
  | [] => pure []
  | item :: items => do
      let value ← decode item
      let values ← all decode items
      return value :: values

theorem bind_eq_some {first : Decoder σ α} {next : α → Decoder σ β} {bytes rest : Bytes}
    {state last : σ} {result : β} :
    (first >>= next) bytes state = some (result, rest, last) ↔
      ∃ value back middle, first bytes state = some (value, back, middle) ∧
        next value back middle = some (result, rest, last) := by
  change ((first bytes state).bind _) = _ ↔ _
  simp only [Option.bind_eq_some_iff, Prod.exists]

@[simp] theorem pure_eq_some {value result : α} {bytes rest : Bytes} {state last : σ} :
    (pure value : Decoder σ α) bytes state = some (result, rest, last) ↔
      value = result ∧ bytes = rest ∧ state = last := by
  change some (value, bytes, state) = _ ↔ _
  simp

@[simp] theorem fail_eq_some {result : α} {bytes rest : Bytes} {state last : σ} :
    ¬ (fail : Decoder σ α) bytes state = some (result, rest, last) := nofun

@[simp] theorem get_eq_some {bytes rest : Bytes} {state result last : σ} :
    (get : Decoder σ σ) bytes state = some (result, rest, last) ↔
      state = result ∧ bytes = rest ∧ state = last := by
  simp [get]

@[simp] theorem modify_eq_some {bytes rest : Bytes} {state last : σ} {change : σ → σ} {u : Unit} :
    modify change bytes state = some (u, rest, last) ↔ bytes = rest ∧ change state = last := by
  simp [modify]

theorem all_keeps {decode : τ → Decoder σ α} {Held : σ → Prop} {Fine : α → Prop} {items : List τ}
    (step : ∀ item bytes state value rest last, Held state →
      decode item bytes state = some (value, rest, last) → Fine value ∧ Held last)
    {bytes rest : Bytes} {state last : σ} {values : List α} (held : Held state)
    (run : all decode items bytes state = some (values, rest, last)) :
    (∀ value ∈ values, Fine value) ∧ Held last := by
  induction items generalizing bytes rest state last values with
  | nil =>
    obtain ⟨rfl, -, rfl⟩ := pure_eq_some.mp run
    exact ⟨by simp, held⟩
  | cons item items ih =>
    obtain ⟨value, back, middle, one, others⟩ := bind_eq_some.mp run
    obtain ⟨more, front, later, two, done⟩ := bind_eq_some.mp others
    obtain ⟨rfl, -, rfl⟩ := pure_eq_some.mp done
    obtain ⟨fine, held_middle⟩ := step item _ _ _ _ _ held one
    obtain ⟨all_fine, held_last⟩ := ih held_middle two
    exact ⟨by simpa using ⟨fine, all_fine⟩, held_last⟩

end Decoder

open Decoder

def Decodes (decode : Decoder σ α) (out : Bytes) (state : σ) (result : Option (α × σ)) : Prop :=
  ∀ rest, decode (out ++ rest) state = result.map fun (value, last) => (value, rest, last)

namespace Decodes
variable {decode first : Decoder σ α} {next : α → Decoder σ β} {out front back : Bytes}
  {state middle : σ} {value : α} {result : Option (β × σ)}

theorem pure (value : α) (state : σ) : Decodes (pure value) [] state (some (value, state)) :=
  fun _ => rfl

theorem fail (out : Bytes) (state : σ) : Decodes (fail : Decoder σ α) out state none :=
  fun _ => rfl

theorem get (state : σ) : Decodes Decoder.get [] state (some (state, state)) := fun _ => rfl

theorem bind (one : Decodes first front state (some (value, middle)))
    (two : Decodes (next value) back middle result) :
    Decodes (first >>= next) (front ++ back) state result := by
  intro rest
  change (first (front ++ back ++ rest) state).bind _ = _
  rw [List.append_assoc, one]
  exact two rest

theorem bind_refused (one : Decodes first front state none) (back : Bytes) :
    Decodes (first >>= next) (front ++ back) state none := by
  intro rest
  change (first (front ++ back ++ rest) state).bind _ = _
  rw [List.append_assoc, one]
  rfl

theorem bind_nil (one : Decodes first [] state (some (value, middle)))
    (two : Decodes (next value) out middle result) : Decodes (first >>= next) out state result :=
  bind one two

theorem bind_last (one : Decodes first out state (some (value, middle)))
    (two : Decodes (next value) [] middle result) : Decodes (first >>= next) out state result := by
  simpa using bind one two

theorem take (out : Bytes) (state : σ) :
    Decodes (Decoder.take out.length) out state (some (out, state)) := by
  intro rest
  simp [Decoder.take]

theorem take_of_length {count : Nat} (long : out.length = count) (state : σ) :
    Decodes (Decoder.take count) out state (some (out, state)) := long ▸ take out state

theorem word {width value : Nat} (small : value < 256 ^ width) (state : σ) :
    Decodes (Decoder.word width) (putWord width value) state (some (value, state)) := by
  have read := take_of_length (putWord_length width value) state
  have finish := pure (wordOf (putWord width value)) state
  rw [wordOf_putWord, Nat.mod_eq_of_lt small] at finish
  apply bind_last read
  rw [wordOf_putWord, Nat.mod_eq_of_lt small]
  exact finish

end Decodes

end NLang.Library.Decoding
