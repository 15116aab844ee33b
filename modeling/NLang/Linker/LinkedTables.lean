import NLang.Library.Outcomes
import NLang.Linker.Link

/-!
# Tables of a linked module

Every row of a linked table is a unit's own row, converted once by the index maps of that unit.
-/

namespace NLang.Linker
open NLang.Library NLang.Library.KeyedMerge NLang.Image

theorem validateUnits_ok {units : List CompiledModule} {paths : List Text} {done : Unit}
    (valid : validateUnits units paths = .ok done) :
    (units.map (·.modulePath)).Nodup ∧ ∀ u ∈ units, u.modulePath ∉ paths := by
  induction units generalizing paths with
  | nil => exact ⟨List.nodup_nil, fun _ member => nomatch member⟩
  | cons u units ih =>
    rw [validateUnits] at valid
    split at valid
    · cases valid
    · split at valid
      · cases valid
      · rename_i fresh
        split at valid
        · cases valid
        · obtain ⟨distinct, apart⟩ := ih valid
          refine ⟨List.nodup_cons.mpr ⟨?_, distinct⟩, ?_⟩
          · intro member
            obtain ⟨v, inside, same⟩ := List.mem_map.mp member
            exact apart v inside (same ▸ .head _)
          · intro v member
            rcases List.mem_cons.mp member with rfl | member
            · exact fresh
            · exact fun inside => apart v member (.tail _ inside)

theorem path_unique {units : List CompiledModule} (paths : (units.map (·.modulePath)).Nodup) {i j : Nat}
    {u v : CompiledModule} (at_i : units[i]? = some u) (at_j : units[j]? = some v) (same : u.modulePath = v.modulePath) :
    i = j := by
  have inside := (List.getElem?_eq_some_iff.mp at_i).1
  refine (List.getElem?_inj (by rwa [List.length_map]) paths).mp ?_
  rw [List.getElem?_map, List.getElem?_map, at_i, at_j]
  exact congrArg some same

structure LinkedParts (units : List CompiledModule) (merged : CompiledModule) : Prop where
  paths : (units.map (·.modulePath)).Nodup
  resolved : resolveProblems units = []
  classes : finalizeClasses units = .ok merged.classes
  structs : finalizeStructs units = .ok merged.structs
  interfaces : finalizeInterfaces units = .ok merged.interfaces

theorem link_ok {units : List CompiledModule} {entryKey : Text} {merged : CompiledModule}
    (linked : link units entryKey = .ok merged) : LinkedParts units merged := by
  rw [link] at linked
  obtain ⟨_, valid, linked⟩ := except_bind_ok.mp linked
  obtain ⟨_, -, linked⟩ := except_bind_ok.mp linked
  have paths : (units.map (·.modulePath)).Nodup := by
    rw [validateClosure] at valid
    split at valid
    · cases valid
    · exact (validateUnits_ok valid).1
  split at linked
  · cases linked
  · rename_i clean
    obtain ⟨final, finalized, entered⟩ := except_bind_ok.mp linked
    rw [finalizeUnits] at finalized
    obtain ⟨arrays, -, finalized⟩ := except_bind_ok.mp finalized
    obtain ⟨classes, classesOk, finalized⟩ := except_bind_ok.mp finalized
    obtain ⟨structs, structsOk, finalized⟩ := except_bind_ok.mp finalized
    obtain ⟨enums, -, finalized⟩ := except_bind_ok.mp finalized
    obtain ⟨staticSlots, -, finalized⟩ := except_bind_ok.mp finalized
    obtain ⟨functions, -, finalized⟩ := except_bind_ok.mp finalized
    obtain ⟨interfaces, interfacesOk, finalized⟩ := except_bind_ok.mp finalized
    cases finalized
    rw [resolveEntry] at entered
    split at entered
    · cases entered
      exact ⟨paths, not_not.mp clean, classesOk, structsOk, interfacesOk⟩
    · split at entered
      · cases entered
        exact ⟨paths, not_not.mp clean, classesOk, structsOk, interfacesOk⟩
      · cases entered

section Finalize
variable {α κ : Type} [DecidableEq κ] {key : α → Option κ} {replaces : α → α → Bool} {units : List (List α)}
variable {merged : MergedTable α} {remap : Nat → α → Except LinkError α} {final : List α}

theorem finalizeRows_ok (merges : Merges key replaces units merged) (finalized : finalizeRows remap merged = .ok final) :
    final.length = merged.table.length ∧ ∀ (c : Nat) (row : α), merged.table[c]? = some row →
      ∃ unit row', (unit, row) ∈ tagged units ∧ remap unit row = .ok row' ∧ final[c]? = some row' ∧
        ∀ k, key row = some k → survivor replaces (underKey key (tagged units) k) = some (unit, row) := by
  have pushes : (merged.pushes.zipIdx.map fun pushed => (remap pushed.2, pushed.1)).map (·.2) = merged.pushes := by
    rw [List.map_map]
    exact List.zipIdx_map_fst 0 merged.pushes
  have nodup : merged.pushes.flatten.Nodup := merges.placed.owned.nodup_iff.mpr List.nodup_range
  rw [← pushes] at nodup
  obtain ⟨count, rows⟩ := convertOwned_ok nodup finalized
  refine ⟨count, fun c row at_c => ?_⟩
  obtain ⟨unit, owns, isPlaced, stays⟩ := merges.placed.supplied c row at_c
  rw [List.getD_eq_getElem?_getD] at owns
  cases at_unit : merged.pushes[unit]? with
  | none =>
    rw [at_unit] at owns
    cases owns
  | some pushed =>
    rw [at_unit, Option.getD_some] at owns
    have owner : (remap unit, pushed) ∈ merged.pushes.zipIdx.map fun pushed => (remap pushed.2, pushed.1) :=
      List.mem_map.mpr ⟨(pushed, unit), List.mk_mem_zipIdx_iff_getElem?.mpr at_unit, rfl⟩
    obtain ⟨row', changed, at_final⟩ := (rows c row at_c).1 _ owner owns
    exact ⟨unit, row', isPlaced, changed, at_final, stays⟩

end Finalize

theorem firstStays_never {α : Type} (old row : α) : firstStays old row = false := rfl

theorem foreign_firstStays {α κ : Type} (key : α → Option κ) (rows : List α) :
    rows.Pairwise (Foreign key firstStays) :=
  List.pairwise_of_forall fun _ _ _ _ _ => rfl

theorem merges_classes (units : List CompiledModule) :
    Merges (fun row => some row.name) firstStays (units.map (·.ownClasses)) (mergeClasses units) :=
  merges_mergeUnits _ fun rows _ => foreign_firstStays _ rows

theorem merges_structs (units : List CompiledModule) :
    Merges (fun row => some row.name) firstStays (units.map (·.ownStructs)) (mergeStructs units) :=
  merges_mergeUnits _ fun rows _ => foreign_firstStays _ rows

theorem bindSlots_ok {P : Type} {bind : SymbolImport → Except P Nat} {imports : List SymbolImport}
    (clean : (bindSlots bind imports).1 = []) {j idx : Nat} (at_j : (bindSlots bind imports).2[j]? = some idx) :
    ∃ imp, imports[j]? = some imp ∧ bind imp = .ok idx := by
  induction imports generalizing j with
  | nil => cases at_j
  | cons imp imports ih =>
    rw [bindSlots] at clean at_j
    cases bound : bind imp with
    | error problem => simp [bound] at clean
    | ok first =>
      rw [bound] at clean at_j
      cases j with
      | zero =>
        cases at_j
        exact ⟨imp, rfl, bound⟩
      | succ j => exact ih clean at_j

section Types
variable {α : Type} {own : CompiledModule → List α} {name : α → Text} {units : List CompiledModule} {merged : MergedTable α}
variable (merges : Merges (fun row => some (name row)) firstStays (units.map own) merged)
include merges

theorem typeSlot_ok {unit : Nat} {u : CompiledModule} (at_unit : units[unit]? = some u) {kind : Vm.Table}
    {imports : List SymbolImport} (clean : (resolveTypeSlots u kind merged.table name imports).1 = []) {s d : Nat}
    (mapped : (mapOf merged unit ++ (resolveTypeSlots u kind merged.table name imports).2)[s]? = some d) :
    ∃ row, (if s < (own u).length then (own u)[s]?.map name else imports[s - (own u).length]?.map (·.name)) = some (name row) ∧
      merged.table[d]? = some row := by
  obtain ⟨indices, at_map, count, points⟩ := merges.mapped unit (own u) (by rw [List.getElem?_map, at_unit]; rfl)
  have inOwn : mapOf merged unit = indices := by rw [mapOf, List.getD_eq_getElem?_getD, at_map, Option.getD_some]
  rw [inOwn] at mapped
  by_cases inside : s < (own u).length
  · rw [List.getElem?_append_left (by omega)] at mapped
    obtain ⟨c, old, index, at_c, same, -⟩ := points s _ (List.getElem?_eq_getElem inside)
    cases mapped.symm.trans index
    refine ⟨old, ?_, at_c⟩
    rw [if_pos inside, List.getElem?_eq_getElem inside, Option.map_some]
    exact same.symm
  · rw [List.getElem?_append_right (by omega), count] at mapped
    obtain ⟨imp, at_import, bound⟩ := bindSlots_ok clean mapped
    cases found : merged.table.findIdx? (name · = imp.name) with
    | none =>
      rw [found] at bound
      cases bound
    | some idx =>
      rw [found] at bound
      cases bound
      obtain ⟨idx_lt, same, -⟩ := List.findIdx?_eq_some_iff_getElem.mp found
      refine ⟨_, ?_, List.getElem?_eq_getElem idx_lt⟩
      rw [if_neg inside, at_import, Option.map_some, of_decide_eq_true same]

variable {remap : Nat → α → Except LinkError α} {final : List α}
variable (keeps : ∀ unit row row', remap unit row = .ok row' → name row' = name row)
variable (finalized : finalizeRows remap merged = .ok final)
include keeps finalized

theorem typeRow_ok {c : Nat} {row : α} (at_c : final[c]? = some row) :
    ∃ (unit : Nat) (u : CompiledModule) (source : α), units[unit]? = some u ∧ source ∈ own u ∧
      remap unit source = .ok row ∧ (tagged (units.map own)).find? (name ·.2 = name row) = some (unit, source) := by
  obtain ⟨count, rows⟩ := finalizeRows_ok merges finalized
  have inside : c < merged.table.length := by
    have := (List.getElem?_eq_some_iff.mp at_c).1
    omega
  obtain ⟨unit, row', isPlaced, converted, at_final, stays⟩ := rows c _ (List.getElem?_eq_getElem inside)
  cases at_c.symm.trans at_final
  generalize merged.table[c] = source at isPlaced converted stays
  obtain ⟨rows, at_own, isOwn⟩ := mem_tagged.mp isPlaced
  rw [List.getElem?_map, Option.map_eq_some_iff] at at_own
  obtain ⟨u, at_unit, rfl⟩ := at_own
  refine ⟨unit, u, source, at_unit, isOwn, converted, ?_⟩
  have first := stays (name source) rfl
  rw [survivor_first firstStays_never, underKey, List.head?_filter] at first
  rw [keeps unit source row converted, ← first]
  congr 1
  funext tag
  simp

theorem typeRow_final {d : Nat} {source : α} (at_d : merged.table[d]? = some source) :
    ∃ row, final[d]? = some row ∧ name row = name source := by
  obtain ⟨-, rows⟩ := finalizeRows_ok merges finalized
  obtain ⟨unit, row, -, converted, at_final, -⟩ := rows d source at_d
  exact ⟨row, at_final, keeps unit source row converted⟩

theorem typeRow_covers {unit : Nat} {source : α} (member : (unit, source) ∈ tagged (units.map own)) :
    ∃ (c : Nat) (row : α), final[c]? = some row ∧ name row = name source := by
  obtain ⟨old, inside, same⟩ := merges.placed.covers (unit, source) member (name source) rfl
  obtain ⟨c, at_c⟩ := List.getElem?_of_mem inside
  obtain ⟨row, at_final, named⟩ := typeRow_final merges keeps finalized at_c
  exact ⟨c, row, at_final, named.trans (Option.some.inj same)⟩

theorem typeNames (order : merged.table.map name = firstSeen ((units.map own).flatten.map name)) :
    final.map name = firstSeen ((units.map own).flatten.map name) := by
  obtain ⟨count, -⟩ := finalizeRows_ok merges finalized
  rw [← order]
  refine List.ext_getElem? fun c => ?_
  rw [List.getElem?_map, List.getElem?_map]
  cases at_c : merged.table[c]? with
  | none =>
    have ended := List.getElem?_eq_none_iff.mp at_c
    rw [List.getElem?_eq_none (by omega)]
  | some source =>
    obtain ⟨row, at_final, named⟩ := typeRow_final merges keeps finalized at_c
    rw [at_final, Option.map_some, Option.map_some, named]

end Types

theorem idxOf_name {α : Type} {name : α → Text} {table : List α} (nodup : (table.map name).Nodup) {d : Nat} {row : α}
    (at_d : table[d]? = some row) : (table.map name).idxOf (name row) = d := by
  have named : (table.map name)[d]? = some (name row) := by rw [List.getElem?_map, at_d, Option.map_some]
  obtain ⟨inside, at_name⟩ := List.getElem?_eq_some_iff.mp named
  rw [← at_name, nodup.idxOf_getElem]

end NLang.Linker
