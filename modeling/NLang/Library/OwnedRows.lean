import Mathlib

/-!
# Converting rows by their owners

Each of several owners converts the rows at its own indices in place. When no index has two owners, every row is
converted once, from what it was at the start.
-/

namespace NLang.Library

variable {α ε : Type}

def convertRows (convert : α → Except ε α) : List Nat → List α → Except ε (List α)
  | [], table => .ok table
  | c :: rest, table =>
    match table[c]? with
    | none => convertRows convert rest table
    | some row =>
      match convert row with
      | .error error => .error error
      | .ok row => convertRows convert rest (table.set c row)

def convertOwned : List ((α → Except ε α) × List Nat) → List α → Except ε (List α)
  | [], table => .ok table
  | (convert, pushed) :: rest, table =>
    match convertRows convert pushed table with
    | .error error => .error error
    | .ok table => convertOwned rest table

theorem convertRows_ok {convert : α → Except ε α} {pushed : List Nat} {table table' : List α} (nodup : pushed.Nodup)
    (converted : convertRows convert pushed table = .ok table') :
    table'.length = table.length ∧ ∀ (c : Nat) (row : α), table[c]? = some row →
      (c ∈ pushed → ∃ row', convert row = .ok row' ∧ table'[c]? = some row') ∧
      (c ∉ pushed → table'[c]? = some row) := by
  induction pushed generalizing table with
  | nil =>
    cases converted
    exact ⟨rfl, fun c row at_c => ⟨fun member => (nomatch member), fun _ => at_c⟩⟩
  | cons e pushed ih =>
    obtain ⟨fresh, nodup⟩ := List.nodup_cons.mp nodup
    rw [convertRows] at converted
    cases at_e : table[e]? with
    | none =>
      rw [at_e] at converted
      obtain ⟨count, rows⟩ := ih nodup converted
      refine ⟨count, fun c row at_c => ?_⟩
      have away : c ≠ e := fun same => by
        rw [same, at_e] at at_c
        cases at_c
      simpa [away] using rows c row at_c
    | some old =>
      rw [at_e] at converted
      dsimp only at converted
      cases changed : convert old with
      | error error =>
        rw [changed] at converted
        cases converted
      | ok new =>
        rw [changed] at converted
        obtain ⟨count, rows⟩ := ih nodup converted
        have inside := (List.getElem?_eq_some_iff.mp at_e).1
        refine ⟨by rw [count, List.length_set], fun c row at_c => ?_⟩
        by_cases here : e = c
        · subst here
          cases at_e.symm.trans at_c
          have stays := (rows e new (by simp [inside])).2 fresh
          exact ⟨fun _ => ⟨new, changed, stays⟩, fun absent => absurd (.head _) absent⟩
        · have kept := rows c row (by rw [List.getElem?_set_ne here, at_c])
          simpa [Ne.symm here] using kept

theorem convertOwned_ok {owners : List ((α → Except ε α) × List Nat)} {table table' : List α}
    (nodup : (owners.map (·.2)).flatten.Nodup) (converted : convertOwned owners table = .ok table') :
    table'.length = table.length ∧ ∀ (c : Nat) (row : α), table[c]? = some row →
      (∀ owner ∈ owners, c ∈ owner.2 → ∃ row', owner.1 row = .ok row' ∧ table'[c]? = some row') ∧
      ((∀ owner ∈ owners, c ∉ owner.2) → table'[c]? = some row) := by
  induction owners generalizing table with
  | nil =>
    cases converted
    exact ⟨rfl, fun c row at_c => ⟨fun _ member => (nomatch member), fun _ => at_c⟩⟩
  | cons owner owners ih =>
    obtain ⟨convert, pushed⟩ := owner
    rw [List.map_cons, List.flatten_cons, List.nodup_append] at nodup
    obtain ⟨first, rest, apart⟩ := nodup
    rw [convertOwned] at converted
    split at converted
    · cases converted
    · rename_i middle done
      obtain ⟨count, rows⟩ := convertRows_ok first done
      obtain ⟨count', rows'⟩ := ih rest converted
      refine ⟨count'.trans count, fun c row at_c => ⟨fun owner member owns => ?_, fun free => ?_⟩⟩
      · rcases List.mem_cons.mp member with rfl | member
        · obtain ⟨row', changed, at_middle⟩ := (rows c row at_c).1 owns
          refine ⟨row', changed, (rows' c row' at_middle).2 fun other inside owns' => ?_⟩
          exact apart c owns c (List.mem_flatten.mpr ⟨_, List.mem_map_of_mem inside, owns'⟩) rfl
        · have away : c ∉ pushed := fun owns' =>
            apart c owns' c (List.mem_flatten.mpr ⟨_, List.mem_map_of_mem member, owns⟩) rfl
          exact (rows' c row ((rows c row at_c).2 away)).1 owner member owns
      · have at_middle := (rows c row at_c).2 (free _ (.head _))
        exact (rows' c row at_middle).2 fun other inside => free other (.tail _ inside)

end NLang.Library
