import Mathlib

/-!
# Merging tables by key

The rows of several units become one table. A row whose key is in the table already takes the index of the row there,
which it may replace; rows without a key are never merged. Every index of the table belongs to the unit whose row it
holds, and that unit alone converts the row once all of them are placed.
-/

namespace NLang.Library.KeyedMerge

section Merge
variable {α κ : Type} [DecidableEq κ] (key : α → Option κ) (replaces : α → α → Bool)

structure UnitMerge (α : Type) where
  table : List α
  earlier : List (List Nat)
  indices : List Nat := []
  pushed : List Nat := []

def find (table : List α) (row : α) : Option Nat :=
  match key row with
  | none => none
  | some k => table.findIdx? (key · = some k)

def mergeRow (s : UnitMerge α) (row : α) : UnitMerge α :=
  match find key s.table row with
  | none =>
    { s with table := s.table ++ [row], indices := s.indices ++ [s.table.length], pushed := s.pushed ++ [s.table.length] }
  | some existing =>
    if s.table[existing]?.any (replaces · row) then
      { table := s.table.set existing row, earlier := s.earlier.map (·.filter (· ≠ existing)),
        indices := s.indices ++ [existing], pushed := s.pushed ++ [existing] }
    else { s with indices := s.indices ++ [existing] }

structure MergedTable (α : Type) where
  table : List α := []
  maps : List (List Nat) := []
  pushes : List (List Nat) := []

def mergeUnit (merged : MergedTable α) (rows : List α) : MergedTable α :=
  let s := rows.foldl (mergeRow key replaces) { table := merged.table, earlier := merged.pushes }
  { table := s.table, maps := merged.maps ++ [s.indices], pushes := s.earlier ++ [s.pushed] }

def mergeUnits (units : List (List α)) : MergedTable α := units.foldl (mergeUnit key replaces) {}

def survivor (rows : List (Nat × α)) : Option (Nat × α) :=
  rows.foldl (fun best row =>
    match best with
    | none => some row
    | some best => if replaces best.2 row.2 then some row else some best) none

def underKey (rows : List (Nat × α)) (k : κ) : List (Nat × α) := rows.filter fun row => key row.2 = some k

variable {key replaces}

theorem survivor_append (rows : List (Nat × α)) (row : Nat × α) :
    survivor replaces (rows ++ [row]) =
      match survivor replaces rows with
      | none => some row
      | some best => if replaces best.2 row.2 then some row else some best := by
  rw [survivor, List.foldl_append]
  rfl

theorem survivor_mem {rows : List (Nat × α)} {row : Nat × α} (stays : survivor replaces rows = some row) :
    row ∈ rows := by
  induction rows using List.reverseRecOn generalizing row with
  | nil => cases stays
  | append_singleton rows last ih =>
    rw [survivor_append] at stays
    cases before : survivor replaces rows with
    | none =>
      rw [before] at stays
      cases stays
      simp
    | some best =>
      rw [before] at stays
      dsimp only at stays
      split at stays
      · cases stays
        simp
      · cases stays
        exact List.mem_append_left _ (ih before)

theorem survivor_eq_none {rows : List (Nat × α)} : survivor replaces rows = none ↔ rows = [] := by
  cases rows using List.reverseRecOn with
  | nil => simp [survivor]
  | append_singleton rows last =>
    rw [survivor_append]
    cases survivor replaces rows with
    | none => simp
    | some best => by_cases better : replaces best.2 last.2 <;> simp [better]

theorem survivor_first (never : ∀ old new, replaces old new = false) (rows : List (Nat × α)) :
    survivor replaces rows = rows.head? := by
  induction rows using List.reverseRecOn with
  | nil => rfl
  | append_singleton rows last ih =>
    rw [survivor_append, ih]
    cases rows with
    | nil => rfl
    | cons row rows => simp [never]

theorem find_some {table : List α} {row : α} {existing : Nat} (found : find key table row = some existing) :
    ∃ k old, key row = some k ∧ table[existing]? = some old ∧ key old = some k := by
  rw [find] at found
  split at found
  · cases found
  · rename_i k keyed
    obtain ⟨inside, same, -⟩ := List.findIdx?_eq_some_iff_getElem.mp found
    exact ⟨k, table[existing], keyed, List.getElem?_eq_getElem inside, by simpa using same⟩

theorem find_none {table : List α} {row : α} {k : κ} (absent : find key table row = none) (keyed : key row = some k) :
    ∀ old ∈ table, key old ≠ some k := by
  rw [find, keyed] at absent
  simpa using absent

omit [DecidableEq κ]

def Distinct (key : α → Option κ) (table : List α) : Prop :=
  ∀ (c d : Nat) (old other : α) (k : κ), table[c]? = some old → table[d]? = some other → key old = some k →
    key other = some k → c = d

def MapsTo (key : α → Option κ) (table : List α) (rows : List α) (indices : List Nat) : Prop :=
  indices.length = rows.length ∧ ∀ (i : Nat) (row : α), rows[i]? = some row →
    ∃ c old, indices[i]? = some c ∧ table[c]? = some old ∧ key old = key row ∧ (key row = none → old = row)

def Grows (key : α → Option κ) (table table' : List α) : Prop :=
  ∀ (c : Nat) (old : α), table[c]? = some old →
    ∃ row, table'[c]? = some row ∧ key row = key old ∧ (key old = none → row = old)

theorem Grows.rfl {table : List α} : Grows key table table := fun _ old at_c => ⟨old, at_c, by simp⟩

theorem Grows.step {first second third : List α} (one : Grows key first second) (two : Grows key second third) :
    Grows key first third := by
  intro c old at_c
  obtain ⟨row, at_second, same, kept⟩ := one c old at_c
  obtain ⟨last, at_third, again, stays⟩ := two c row at_second
  refine ⟨last, at_third, again.trans same, fun unkeyed => ?_⟩
  rw [stays (same.trans unkeyed), kept unkeyed]

theorem MapsTo.grows {table table' rows : List α} {indices : List Nat} (maps : MapsTo key table rows indices)
    (grows : Grows key table table') : MapsTo key table' rows indices := by
  refine ⟨maps.1, fun i row at_i => ?_⟩
  obtain ⟨c, old, index, at_c, same, kept⟩ := maps.2 i row at_i
  obtain ⟨last, at_last, again, stays⟩ := grows c old at_c
  refine ⟨c, last, index, at_last, again.trans same, fun unkeyed => ?_⟩
  rw [stays (same.trans unkeyed), kept unkeyed]

end Merge

section Owners
variable {pushes : List (List Nat)}

theorem owner_unique (nodup : pushes.flatten.Nodup) {i j c : Nat} (one : c ∈ pushes.getD i [])
    (other : c ∈ pushes.getD j []) : i = j := by
  obtain ⟨-, apart⟩ := List.nodup_flatten.mp nodup
  have inside {k : Nat} (member : c ∈ pushes.getD k []) : ∃ list, pushes[k]? = some list ∧ c ∈ list := by
    rw [List.getD_eq_getElem?_getD] at member
    cases at_k : pushes[k]? with
    | none => simp [at_k] at member
    | some list => exact ⟨list, rfl, by simpa [at_k] using member⟩
  obtain ⟨first, at_i, in_first⟩ := inside one
  obtain ⟨second, at_j, in_second⟩ := inside other
  obtain ⟨i_lt, rfl⟩ := List.getElem?_eq_some_iff.mp at_i
  obtain ⟨j_lt, rfl⟩ := List.getElem?_eq_some_iff.mp at_j
  rcases Nat.lt_trichotomy i j with less | same | more
  · exact absurd in_second (List.pairwise_iff_getElem.mp apart i j i_lt j_lt less in_first)
  · exact same
  · exact absurd in_first (List.pairwise_iff_getElem.mp apart j i j_lt i_lt more in_second)

theorem mem_getD_append {c : Nat} {last last' : List Nat} (grown : last ⊆ last') {i : Nat}
    (member : c ∈ (pushes ++ [last]).getD i []) : c ∈ (pushes ++ [last']).getD i [] := by
  rw [List.getD_eq_getElem?_getD] at member ⊢
  rcases Nat.lt_trichotomy i pushes.length with less | rfl | more
  · rw [List.getElem?_append_left less] at member ⊢
    exact member
  · simp only [List.getElem?_concat_length, Option.getD_some] at member ⊢
    exact grown member
  · rw [List.getElem?_eq_none (by simp; omega)] at member
    simp at member

theorem mem_getD_filter {c e : Nat} (away : c ≠ e) {last : List Nat} {i : Nat}
    (member : c ∈ (pushes ++ [last]).getD i []) :
    c ∈ (pushes.map (·.filter (· ≠ e)) ++ [last]).getD i [] := by
  rw [List.getD_eq_getElem?_getD] at member ⊢
  by_cases inside : i < pushes.length
  · rw [List.getElem?_append_left inside] at member
    rw [List.getElem?_append_left (by simpa using inside), List.getElem?_map]
    rw [List.getElem?_eq_getElem inside] at member ⊢
    simpa [away] using member
  · rw [List.getElem?_append_right (by omega)] at member
    rw [List.getElem?_append_right (by simpa using inside), List.length_map]
    exact member

theorem perm_filter_append {list : List Nat} (nodup : list.Nodup) {e : Nat} (member : e ∈ list) :
    (list.filter (· ≠ e) ++ [e]).Perm list := by
  have erased : list.filter (· ≠ e) = list.erase e := by
    rw [nodup.erase_eq_filter]
    congr 1
    funext c
    simp [bne, BEq.beq]
  rw [erased]
  exact List.perm_append_comm.trans (List.perm_cons_erase member).symm

end Owners

section Rows
variable {α κ : Type} [DecidableEq κ] {key : α → Option κ} {replaces : α → α → Bool}

theorem mem_underKey_append {placed : List (Nat × α)} {unit : Nat} {row : α} {k : κ} :
    underKey key (placed ++ [(unit, row)]) k =
      underKey key placed k ++ if key row = some k then [(unit, row)] else [] := by
  by_cases keyed : key row = some k <;> simp [underKey, keyed]

theorem mergeRow_grows (key : α → Option κ) (replaces : α → α → Bool) (s : UnitMerge α) (row : α) :
    Grows key s.table (mergeRow key replaces s row).table ∧
      ∃ c old, (mergeRow key replaces s row).indices = s.indices ++ [c] ∧
        (mergeRow key replaces s row).table[c]? = some old ∧ key old = key row ∧ (key row = none → old = row) := by
  rw [mergeRow]
  cases found : find key s.table row with
  | none =>
    refine ⟨fun c old at_c => ?_, s.table.length, row, rfl, by simp, rfl, fun _ => rfl⟩
    have inside := (List.getElem?_eq_some_iff.mp at_c).1
    exact ⟨old, by rw [List.getElem?_append_left inside, at_c], rfl, fun _ => rfl⟩
  | some existing =>
    obtain ⟨k, old, keyed, at_existing, same⟩ := find_some found
    have inside := (List.getElem?_eq_some_iff.mp at_existing).1
    dsimp only
    split
    · refine ⟨fun c other at_c => ?_, existing, row, rfl, by simp [inside], rfl, fun _ => rfl⟩
      by_cases here : existing = c
      · subst here
        cases at_c.symm.trans at_existing
        exact ⟨row, by simp [inside], keyed.trans same.symm, fun unkeyed => by rw [same] at unkeyed; cases unkeyed⟩
      · exact ⟨other, by rw [List.getElem?_set_ne here, at_c], rfl, fun _ => rfl⟩
    · refine ⟨Grows.rfl, existing, old, rfl, at_existing, same.trans keyed.symm, fun unkeyed => ?_⟩
      rw [keyed] at unkeyed
      cases unkeyed

structure Placed (key : α → Option κ) (replaces : α → α → Bool) (placed : List (Nat × α)) (table : List α)
    (pushes : List (List Nat)) : Prop where
  distinct : Distinct key table
  covers : ∀ row ∈ placed, ∀ k, key row.2 = some k → ∃ old ∈ table, key old = some k
  owned : pushes.flatten.Perm (List.range table.length)
  supplied : ∀ (c : Nat) (row : α), table[c]? = some row → ∃ unit, c ∈ pushes.getD unit [] ∧
    (unit, row) ∈ placed ∧ ∀ k, key row = some k → survivor replaces (underKey key placed k) = some (unit, row)

theorem underKey_other {placed : List (Nat × α)} {unit : Nat} {row : α} {k : κ} (other : key row ≠ some k) :
    underKey key (placed ++ [(unit, row)]) k = underKey key placed k := by
  rw [mem_underKey_append, if_neg other, List.append_nil]

variable {placed : List (Nat × α)} {table : List α} {earlier : List (List Nat)} {pushed : List Nat} {row : α}

theorem Placed.append (before : Placed key replaces placed table (earlier ++ [pushed]))
    (absent : find key table row = none) :
    Placed key replaces (placed ++ [(earlier.length, row)]) (table ++ [row])
      (earlier ++ [pushed ++ [table.length]]) := by
  have fresh := fun k (keyed : key row = some k) => find_none absent keyed
  have split {c : Nat} {old : α} (at_c : (table ++ [row])[c]? = some old) :
      table[c]? = some old ∨ (c = table.length ∧ old = row) := by
    by_cases inside : c < table.length
    · exact .inl (by rwa [List.getElem?_append_left inside] at at_c)
    · have bound := (List.getElem?_eq_some_iff.mp at_c).1
      rw [List.length_append, List.length_singleton] at bound
      have last : c = table.length := by omega
      subst last
      simp at at_c
      exact .inr ⟨rfl, at_c.symm⟩
  have covered {k : κ} (keyed : key row = some k) : underKey key placed k = [] := by
    refine List.filter_eq_nil_iff.mpr fun other member => ?_
    intro same
    obtain ⟨old, inside, again⟩ := before.covers other member k (by simpa using same)
    exact fresh k keyed old inside again
  constructor
  · intro c d old other k at_c at_d one two
    rcases split at_c with in_c | ⟨rfl, rfl⟩ <;> rcases split at_d with in_d | ⟨rfl, rfl⟩
    · exact before.distinct c d old other k in_c in_d one two
    · exact absurd one (fresh k two old (List.mem_of_getElem? in_c))
    · exact absurd two (fresh k one other (List.mem_of_getElem? in_d))
    · rfl
  · intro other member k keyed
    rcases List.mem_append.mp member with member | last
    · obtain ⟨old, inside, same⟩ := before.covers other member k keyed
      exact ⟨old, List.mem_append_left _ inside, same⟩
    · cases List.mem_singleton.mp last
      exact ⟨row, by simp, keyed⟩
  · have owned := before.owned
    rw [List.flatten_append, List.flatten_singleton] at owned
    rw [List.flatten_append, List.flatten_singleton, ← List.append_assoc, List.length_append, List.length_singleton,
      List.range_succ]
    exact owned.append_right _
  · intro c old at_c
    rcases split at_c with at_c | ⟨rfl, rfl⟩
    · obtain ⟨unit, owns, isPlaced, stays⟩ := before.supplied c old at_c
      refine ⟨unit, mem_getD_append (List.subset_append_left _ _) owns, List.mem_append_left _ isPlaced, ?_⟩
      intro k keyed
      have other : key row ≠ some k := fun same => fresh k same old (List.mem_of_getElem? at_c) keyed
      rw [underKey_other other, stays k keyed]
    · refine ⟨earlier.length, by simp [List.getD_eq_getElem?_getD], by simp, fun k keyed => ?_⟩
      rw [mem_underKey_append, if_pos keyed, covered keyed]
      rfl

theorem Placed.keep (before : Placed key replaces placed table (earlier ++ [pushed])) {existing : Nat} {old : α} {k : κ}
    (keyed : key row = some k) (at_existing : table[existing]? = some old) (same : key old = some k)
    (worse : replaces old row = false) {unit : Nat} :
    Placed key replaces (placed ++ [(unit, row)]) table (earlier ++ [pushed]) := by
  refine ⟨before.distinct, ?_, before.owned, ?_⟩
  · intro other member k' keyed'
    rcases List.mem_append.mp member with member | last
    · exact before.covers other member k' keyed'
    · cases List.mem_singleton.mp last
      cases keyed.symm.trans keyed'
      exact ⟨old, List.mem_of_getElem? at_existing, same⟩
  · intro c other at_c
    obtain ⟨owner, owns, isPlaced, stays⟩ := before.supplied c other at_c
    refine ⟨owner, owns, List.mem_append_left _ isPlaced, fun k' keyed' => ?_⟩
    by_cases here : key row = some k'
    · cases keyed.symm.trans here
      cases before.distinct existing c old other k at_existing at_c same keyed'
      cases at_existing.symm.trans at_c
      rw [mem_underKey_append, if_pos here, survivor_append, stays k keyed']
      simp [worse]
    · rw [underKey_other here, stays k' keyed']

theorem Placed.replace (before : Placed key replaces placed table (earlier ++ [pushed])) {existing : Nat} {old : α} {k : κ}
    (keyed : key row = some k) (at_existing : table[existing]? = some old) (same : key old = some k)
    (better : replaces old row = true) (foreign : (earlier.length, old) ∉ placed) :
    Placed key replaces (placed ++ [(earlier.length, row)]) (table.set existing row)
      (earlier.map (·.filter (· ≠ existing)) ++ [pushed ++ [existing]]) := by
  have inside := (List.getElem?_eq_some_iff.mp at_existing).1
  have nodup : (earlier ++ [pushed]).flatten.Nodup := before.owned.nodup_iff.mpr List.nodup_range
  have owned := before.owned
  rw [List.flatten_append, List.flatten_singleton] at nodup owned
  have notPushed : existing ∉ pushed := by
    intro member
    obtain ⟨owner, owns, isPlaced, -⟩ := before.supplied existing old at_existing
    have here : existing ∈ (earlier ++ [pushed]).getD earlier.length [] := by
      simpa [List.getD_eq_getElem?_getD] using member
    cases owner_unique (before.owned.nodup_iff.mpr List.nodup_range) owns here
    exact foreign isPlaced
  have split {c : Nat} {new : α} (at_c : (table.set existing row)[c]? = some new) :
      (c ≠ existing ∧ table[c]? = some new) ∨ (c = existing ∧ new = row) := by
    by_cases here : existing = c
    · subst here
      simp [inside] at at_c
      exact .inr ⟨rfl, at_c.symm⟩
    · exact .inl ⟨fun h => here h.symm, by rwa [List.getElem?_set_ne here] at at_c⟩
  have apart {c : Nat} {new : α} (away : c ≠ existing) (at_c : table[c]? = some new) : key new ≠ some k :=
    fun again => away (before.distinct c existing new old k at_c at_existing again same)
  constructor
  · intro c d first second k' at_c at_d one two
    rcases split at_c with ⟨away_c, in_c⟩ | ⟨rfl, rfl⟩ <;> rcases split at_d with ⟨away_d, in_d⟩ | ⟨rfl, rfl⟩
    · exact before.distinct c d first second k' in_c in_d one two
    · cases keyed.symm.trans two
      exact absurd one (apart away_c in_c)
    · cases keyed.symm.trans one
      exact absurd two (apart away_d in_d)
    · rfl
  · intro other member k' keyed'
    by_cases here : k' = k
    · subst here
      exact ⟨row, List.mem_of_getElem? (by simp [inside] : (table.set existing row)[existing]? = some row), keyed⟩
    · rcases List.mem_append.mp member with member | last
      · obtain ⟨found, at_found, again⟩ := before.covers other member k' keyed'
        obtain ⟨c, c_lt, rfl⟩ := List.getElem_of_mem at_found
        have away : existing ≠ c := by
          rintro rfl
          rw [List.getElem?_eq_getElem inside] at at_existing
          cases at_existing
          exact here (Option.some.inj (again.symm.trans same))
        exact ⟨table[c], List.mem_of_getElem? (by rw [List.getElem?_set_ne away, List.getElem?_eq_getElem c_lt]), again⟩
      · cases List.mem_singleton.mp last
        exact absurd (Option.some.inj (keyed'.symm.trans keyed)) here
  · have without : (earlier.map (·.filter (· ≠ existing))).flatten = earlier.flatten.filter (· ≠ existing) :=
      (List.filter_flatten ..).symm
    have kept : pushed.filter (· ≠ existing) = pushed :=
      List.filter_eq_self.mpr fun c member => by
        have away : c ≠ existing := fun same => notPushed (same ▸ member)
        simpa using away
    have member : existing ∈ earlier.flatten ++ pushed := owned.mem_iff.mpr (List.mem_range.mpr inside)
    rw [List.flatten_append, List.flatten_singleton, without, List.length_set, ← List.append_assoc]
    calc earlier.flatten.filter (· ≠ existing) ++ pushed ++ [existing]
      _ = (earlier.flatten ++ pushed).filter (· ≠ existing) ++ [existing] := by rw [List.filter_append, kept]
      _ |>.Perm (earlier.flatten ++ pushed) := perm_filter_append nodup member
      _ |>.Perm (List.range table.length) := owned
  · intro c new at_c
    rcases split at_c with ⟨away, at_c⟩ | ⟨rfl, rfl⟩
    · obtain ⟨owner, owns, isPlaced, stays⟩ := before.supplied c new at_c
      refine ⟨owner, ?_, List.mem_append_left _ isPlaced, fun k' keyed' => ?_⟩
      · exact mem_getD_append (List.subset_append_left _ _) (mem_getD_filter away owns)
      · have other : key row ≠ some k' := by
          intro here
          cases keyed.symm.trans here
          exact apart away at_c keyed'
        rw [underKey_other other, stays k' keyed']
    · refine ⟨earlier.length, by simp [List.getD_eq_getElem?_getD], by simp, fun k' keyed' => ?_⟩
      obtain ⟨owner, -, -, stays⟩ := before.supplied c old at_existing
      cases keyed.symm.trans keyed'
      rw [mem_underKey_append, if_pos keyed, survivor_append, stays k same]
      simp [better]

end Rows

section Units
variable {α κ : Type} [DecidableEq κ] {key : α → Option κ} {replaces : α → α → Bool}

def Foreign (key : α → Option κ) (replaces : α → α → Bool) (old row : α) : Prop :=
  ∀ k, key old = some k → key row = some k → replaces old row = false

theorem mergeRow_placed {placed : List (Nat × α)} {s : UnitMerge α} (row : α)
    (before : Placed key replaces placed s.table (s.earlier ++ [s.pushed]))
    (foreign : ∀ old, (s.earlier.length, old) ∈ placed → Foreign key replaces old row) :
    (mergeRow key replaces s row).earlier.length = s.earlier.length ∧
      Placed key replaces (placed ++ [(s.earlier.length, row)]) (mergeRow key replaces s row).table
        ((mergeRow key replaces s row).earlier ++ [(mergeRow key replaces s row).pushed]) := by
  rw [mergeRow]
  cases found : find key s.table row with
  | none => exact ⟨rfl, before.append found⟩
  | some existing =>
    obtain ⟨k, old, keyed, at_existing, same⟩ := find_some found
    dsimp only
    rw [at_existing, Option.any_some]
    by_cases better : replaces old row
    · rw [if_pos better]
      refine ⟨List.length_map _, before.replace keyed at_existing same better fun member => ?_⟩
      rw [foreign old member k same keyed] at better
      cases better
    · rw [if_neg better]
      exact ⟨rfl, before.keep keyed at_existing same (by simpa using better)⟩

theorem mergeRows_placed (rows : List α) (tame : rows.Pairwise (Foreign key replaces)) {placed : List (Nat × α)}
    {s : UnitMerge α} (before : Placed key replaces placed s.table (s.earlier ++ [s.pushed]))
    (foreign : ∀ old, (s.earlier.length, old) ∈ placed → ∀ row ∈ rows, Foreign key replaces old row) :
    let s' := rows.foldl (mergeRow key replaces) s
    s'.earlier.length = s.earlier.length ∧
      Placed key replaces (placed ++ rows.map (s.earlier.length, ·)) s'.table (s'.earlier ++ [s'.pushed]) := by
  induction rows generalizing placed s with
  | nil => simpa using before
  | cons row rows ih =>
    obtain ⟨later, tame⟩ := List.pairwise_cons.mp tame
    obtain ⟨count, placed'⟩ := mergeRow_placed row before fun old member => foreign old member row (.head _)
    have step := ih tame placed' fun old member => ?_
    · rw [count, List.append_assoc] at step
      exact step
    · rw [count] at member
      rcases List.mem_append.mp member with member | last
      · exact fun row inside => foreign old member row (.tail _ inside)
      · cases List.mem_singleton.mp last
        exact later

theorem mergeRows_mapped (key : α → Option κ) (replaces : α → α → Bool) (rows : List α) {own : List α}
    {s : UnitMerge α} (mapped : MapsTo key s.table own s.indices) :
    let s' := rows.foldl (mergeRow key replaces) s
    Grows key s.table s'.table ∧ MapsTo key s'.table (own ++ rows) s'.indices := by
  induction rows generalizing own s with
  | nil => exact ⟨.rfl, by simpa using mapped⟩
  | cons row rows ih =>
    obtain ⟨grows, c, old, indices, at_c, same, kept⟩ := mergeRow_grows key replaces s row
    have next : MapsTo key (mergeRow key replaces s row).table (own ++ [row]) (mergeRow key replaces s row).indices := by
      obtain ⟨count, points⟩ := mapped.grows grows
      refine ⟨by rw [indices]; simp [count], fun i other at_i => ?_⟩
      rw [indices]
      by_cases inside : i < own.length
      · rw [List.getElem?_append_left inside] at at_i
        rw [List.getElem?_append_left (by omega)]
        exact points i other at_i
      · have last : i = own.length := by
          have := (List.getElem?_eq_some_iff.mp at_i).1
          rw [List.length_append, List.length_singleton] at this
          omega
        subst last
        rw [List.getElem?_concat_length] at at_i
        cases at_i
        rw [← count]
        exact ⟨c, old, List.getElem?_concat_length, at_c, same, kept⟩
    obtain ⟨later, points⟩ := ih next
    exact ⟨grows.step later, by simpa using points⟩

def tagged (units : List (List α)) : List (Nat × α) :=
  units.zipIdx.flatMap fun (rows, unit) => rows.map (unit, ·)

theorem mem_tagged {units : List (List α)} {unit : Nat} {row : α} :
    (unit, row) ∈ tagged units ↔ ∃ rows, units[unit]? = some rows ∧ row ∈ rows := by
  simp only [tagged, List.mem_flatMap, Prod.exists, List.mk_mem_zipIdx_iff_getElem?, List.mem_map, Prod.mk.injEq]
  grind

theorem tagged_append (units : List (List α)) (rows : List α) :
    tagged (units ++ [rows]) = tagged units ++ rows.map (units.length, ·) := by
  simp [tagged, List.zipIdx_append]

structure Merges (key : α → Option κ) (replaces : α → α → Bool) (units : List (List α)) (merged : MergedTable α) :
    Prop where
  placed : Placed key replaces (tagged units) merged.table merged.pushes
  pushes : merged.pushes.length = units.length
  maps : merged.maps.length = units.length
  mapped : ∀ (unit : Nat) (rows : List α), units[unit]? = some rows →
    ∃ indices, merged.maps[unit]? = some indices ∧ MapsTo key merged.table rows indices

theorem merges_nil : Merges key replaces [] {} where
  placed :=
    { distinct := fun _ _ _ _ _ at_c => nomatch at_c
      covers := fun _ member => nomatch member
      owned := List.Perm.refl _
      supplied := fun _ _ at_c => nomatch at_c }
  pushes := rfl
  maps := rfl
  mapped := fun _ _ at_unit => nomatch at_unit

theorem Merges.unit {units : List (List α)} {merged : MergedTable α} (before : Merges key replaces units merged)
    {rows : List α} (tame : rows.Pairwise (Foreign key replaces)) :
    Merges key replaces (units ++ [rows]) (mergeUnit key replaces merged rows) := by
  have start : Placed key replaces (tagged units) merged.table (merged.pushes ++ [[]]) := by
    obtain ⟨distinct, covers, owned, supplied⟩ := before.placed
    refine ⟨distinct, covers, by simpa using owned, fun c row at_c => ?_⟩
    obtain ⟨unit, owns, facts⟩ := supplied c row at_c
    refine ⟨unit, ?_, facts⟩
    by_cases inside : unit < merged.pushes.length
    · rwa [List.getD_eq_getElem?_getD, List.getElem?_append_left inside, ← List.getD_eq_getElem?_getD]
    · rw [List.getD_eq_getElem?_getD, List.getElem?_eq_none (by omega)] at owns
      cases owns
  have foreign : ∀ old, (merged.pushes.length, old) ∈ tagged units → ∀ row ∈ rows, Foreign key replaces old row := by
    intro old member
    obtain ⟨other, at_unit, -⟩ := mem_tagged.mp member
    have := (List.getElem?_eq_some_iff.mp at_unit).1
    have := before.pushes
    omega
  obtain ⟨count, placed⟩ := mergeRows_placed rows tame (s := { table := merged.table, earlier := merged.pushes }) start foreign
  have empty : MapsTo key merged.table [] ([] : List Nat) := ⟨rfl, fun _ _ at_i => nomatch at_i⟩
  obtain ⟨grows, mapped⟩ :=
    mergeRows_mapped key replaces rows (s := { table := merged.table, earlier := merged.pushes }) empty
  constructor
  · rw [tagged_append, ← before.pushes]
    exact placed
  · rw [mergeUnit]
    dsimp only at count ⊢
    rw [List.length_append, count, before.pushes, List.length_append]
    rfl
  · rw [mergeUnit]
    dsimp only
    rw [List.length_append, before.maps, List.length_append]
    rfl
  · intro unit own at_unit
    rw [mergeUnit]
    dsimp only
    by_cases inside : unit < units.length
    · rw [List.getElem?_append_left inside] at at_unit
      obtain ⟨indices, at_map, points⟩ := before.mapped unit own at_unit
      exact ⟨indices, by rwa [List.getElem?_append_left (by rw [before.maps]; exact inside)], points.grows grows⟩
    · have last : unit = units.length := by
        have := (List.getElem?_eq_some_iff.mp at_unit).1
        rw [List.length_append, List.length_singleton] at this
        omega
      subst last
      rw [List.getElem?_concat_length] at at_unit
      cases at_unit
      rw [← before.maps, List.getElem?_concat_length]
      exact ⟨_, rfl, by simpa using mapped⟩

theorem merges_mergeUnits (units : List (List α)) (tame : ∀ rows ∈ units, rows.Pairwise (Foreign key replaces)) :
    Merges key replaces units (mergeUnits key replaces units) := by
  induction units using List.reverseRecOn with
  | nil => exact merges_nil
  | append_singleton units rows ih =>
    rw [mergeUnits, List.foldl_append]
    exact (ih fun rows member => tame rows (List.mem_append_left _ member)).unit (tame rows (by simp))

end Units

section FirstSeen
variable {α κ : Type} [DecidableEq κ]

def firstSeen (keys : List κ) : List κ := keys.foldl (fun seen k => if k ∈ seen then seen else seen ++ [k]) []

theorem firstSeen_nodup (keys : List κ) : (firstSeen keys).Nodup := by
  induction keys using List.reverseRecOn with
  | nil => exact List.nodup_nil
  | append_singleton keys k ih =>
    rw [firstSeen, List.foldl_append, List.foldl_cons, List.foldl_nil]
    change (if k ∈ firstSeen keys then firstSeen keys else firstSeen keys ++ [k]).Nodup
    split
    · exact ih
    · refine List.nodup_append.mpr ⟨ih, List.nodup_singleton k, ?_⟩
      rintro seen member _ single rfl
      rw [List.mem_singleton.mp single] at member
      contradiction

variable {name : α → κ} {replaces : α → α → Bool} (never : ∀ old row, replaces old row = false)
include never

theorem mergeRow_names (s : UnitMerge α) (row : α) :
    (mergeRow (fun row => some (name row)) replaces s row).table.map name =
      if name row ∈ s.table.map name then s.table.map name else s.table.map name ++ [name row] := by
  rw [mergeRow]
  cases found : find (fun row => some (name row)) s.table row with
  | none =>
    have fresh : name row ∉ s.table.map name := by
      intro member
      obtain ⟨old, inside, same⟩ := List.mem_map.mp member
      exact find_none found rfl old inside (congrArg some same)
    rw [if_neg fresh, List.map_append, List.map_singleton]
  | some existing =>
    obtain ⟨k, old, keyed, at_existing, same⟩ := find_some found
    have known : name row ∈ s.table.map name := by
      rw [Option.some.inj (keyed.trans same.symm)]
      exact List.mem_map_of_mem (List.mem_of_getElem? at_existing)
    rw [if_pos known]
    simp [never]

theorem mergeUnits_names (units : List (List α)) :
    (mergeUnits (fun row => some (name row)) replaces units).table.map name = firstSeen (units.flatten.map name) := by
  have rows (own : List α) (s : UnitMerge α) (before : List κ) (start : s.table.map name = firstSeen before) :
      (own.foldl (mergeRow (fun row => some (name row)) replaces) s).table.map name =
        firstSeen (before ++ own.map name) := by
    induction own generalizing s before with
    | nil => simpa using start
    | cons row own ih =>
      have next : (mergeRow (fun row => some (name row)) replaces s row).table.map name =
          firstSeen (before ++ [name row]) := by
        rw [mergeRow_names never, start, firstSeen, firstSeen, List.foldl_append, List.foldl_cons, List.foldl_nil]
      rw [List.foldl_cons, ih _ _ next, List.map_cons, List.append_assoc, List.singleton_append]
  induction units using List.reverseRecOn with
  | nil => rfl
  | append_singleton units own ih =>
    rw [mergeUnits, List.foldl_append] at *
    rw [List.flatten_append, List.map_append, List.flatten_singleton]
    exact rows own _ _ ih

end FirstSeen
end NLang.Library.KeyedMerge
