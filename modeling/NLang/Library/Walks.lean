import NLang.Library.Outcomes
import NLang.Library.Words

/-!
# Guarded walks

Walks with a state that may refuse their input. An access outside of the buffer and a call beyond the allowed number of
nested ones are failures of their own, which a safe walk does not have.
-/

namespace NLang.Library.Walks
open Words

inductive Fault (ε : Type) where
  | refused (reason : ε)
  | overrun
  | outOfCalls

def Walk (ε σ α : Type) := σ → Except (Fault ε) (α × σ)

variable {ε σ α β : Type}

instance : Monad (Walk ε σ) where
  pure value := fun state => .ok (value, state)
  bind first next := fun state => first state >>= fun (value, middle) => next value middle

def refuse (reason : ε) : Walk ε σ α := fun _ => .error (.refused reason)

def outOfCalls : Walk ε σ α := fun _ => .error .outOfCalls

def times (walk : Walk ε σ α) : Nat → Walk ε σ (List α)
  | 0 => pure []
  | count + 1 => do
      let first ← walk
      let others ← times walk count
      return first :: others

section Reads
variable (data : Bytes) (reason : ε) (count pos : Nat)

def sizeBehind : Nat := if pos ≤ data.length then data.length - pos else 2 ^ 64 - (pos - data.length)

def read : Except (Fault ε) (Bytes × Nat) :=
  if sizeBehind data pos < count then .error (.refused reason)
  else if Inside data pos count then .ok (window data pos count, pos + count)
  else .error .overrun

def skip : Except (Fault ε) Nat :=
  if sizeBehind data pos < count then .error (.refused reason) else .ok (pos + count)

end Reads

section Success
variable {first : Walk ε σ α} {next : α → Walk ε σ β} {state middle last : σ} {value : α}

theorem bind_eq (one : first state = .ok (value, middle)) : (first >>= next) state = next value middle := by
  change (first state >>= fun (value, middle) => next value middle) = _
  rw [one]
  rfl

theorem bind_refused {fault : Fault ε} (one : first state = .error fault) : (first >>= next) state = .error fault := by
  change (first state >>= fun (value, middle) => next value middle) = _
  rw [one]
  rfl

variable {data chunk tail : Bytes} {reason : ε} {pos : Nat}

theorem read_eq (here : data.drop pos = chunk ++ tail) (inside : pos ≤ data.length) :
    read data reason chunk.length pos = .ok (chunk, pos + chunk.length) := by
  have count := congrArg List.length here
  rw [List.length_drop, List.length_append] at count
  have enough : ¬ sizeBehind data pos < chunk.length := by
    rw [sizeBehind, if_pos inside]
    omega
  have room : Inside data pos chunk.length := by
    unfold Inside
    omega
  rw [read, if_neg enough, if_pos room, window, here, List.take_left]

theorem skip_eq (here : data.drop pos = chunk ++ tail) (inside : pos ≤ data.length) :
    skip data reason chunk.length pos = .ok (pos + chunk.length) := by
  have count := congrArg List.length here
  rw [List.length_drop, List.length_append] at count
  rw [skip, sizeBehind, if_pos inside, if_neg (by omega)]

end Success

inductive Ends (Held : α → Prop) : Except (Fault ε) α → Prop where
  | done {value : α} (held : Held value) : Ends Held (.ok value)
  | refused (reason : ε) : Ends Held (.error (.refused reason))

def Safe (Inv : σ → Prop) (walk : Walk ε σ α) : Prop := ∀ state, Inv state → Ends (fun result => Inv result.2) (walk state)

theorem Ends.imp {Held Kept : α → Prop} {result : Except (Fault ε) α} (ends : Ends Held result)
    (weaker : ∀ value, Held value → Kept value) : Ends Kept result := by
  cases ends with
  | done held => exact .done (weaker _ held)
  | refused reason => exact .refused reason

theorem Ends.bind {Held : α → Prop} {Kept : β → Prop} {first : Except (Fault ε) α} {next : α → Except (Fault ε) β}
    (one : Ends Held first) (two : ∀ value, Held value → Ends Kept (next value)) : Ends Kept (first >>= next) := by
  cases one with
  | done held => exact two _ held
  | refused reason => exact .refused reason

theorem Ends.ite {Held : α → Prop} {c : Prop} [Decidable c] {yes no : Except (Fault ε) α} (isYes : c → Ends Held yes)
    (isNo : ¬ c → Ends Held no) : Ends Held (if c then yes else no) := by
  split
  · rename_i holds
    exact isYes holds
  · rename_i fails
    exact isNo fails

namespace Safe
variable {Inv : σ → Prop} {first walk other : Walk ε σ α} {next : α → Walk ε σ β}

theorem pure (value : α) : Safe (ε := ε) Inv (pure value) := fun _ held => .done held

theorem refuse (reason : ε) : Safe Inv (refuse reason : Walk ε σ α) := fun _ _ => .refused reason

theorem bind (one : Safe Inv first) (two : ∀ value, Safe Inv (next value)) : Safe Inv (first >>= next) := by
  intro state held
  exact (one state held).bind fun result inv => two result.1 result.2 inv

theorem ite {c : Prop} [Decidable c] (yes : c → Safe Inv walk) (no : ¬ c → Safe Inv other) :
    Safe Inv (if c then walk else other) := by
  split
  · rename_i holds
    exact yes holds
  · rename_i fails
    exact no fails

theorem times (each : Safe Inv walk) (count : Nat) : Safe Inv (times walk count) := by
  induction count with
  | zero => exact pure []
  | succ count ih => exact each.bind fun _ => ih.bind fun _ => pure _

end Safe

section SafeReads
variable {data : Bytes} {reason : ε} {count pos : Nat}

theorem read_ends (inside : pos ≤ data.length) :
    Ends (fun result => result.2 = pos + count ∧ result.2 ≤ data.length) (read data reason count pos) := by
  rw [read, sizeBehind, if_pos inside]
  refine .ite (fun _ => .refused reason) fun enough => ?_
  have room : Inside data pos count := by
    unfold Inside
    omega
  rw [if_pos room]
  exact .done ⟨rfl, room⟩

theorem skip_ends (inside : pos ≤ data.length) : Ends (fun last => last ≤ data.length) (skip data reason count pos) := by
  rw [skip, sizeBehind, if_pos inside]
  refine .ite (fun _ => .refused reason) fun enough => ?_
  apply Ends.done
  omega

end SafeReads

end NLang.Library.Walks
