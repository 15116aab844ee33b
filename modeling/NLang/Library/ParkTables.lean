import NLang.Library.Queues

/-!
# Tables of parking callers

A caller registers an entry, rechecks it and commits to parking or goes on. Others take entries in between: an
entry that is not committed is changed for its caller to find, a committed one is removed.
-/

namespace NLang.Library.ParkTables
open NLang.Library.Queues

inductive Status where
  | absent
  | registered
  | parked
  deriving DecidableEq

variable {α β : Type} {key : α → Nat} {phase : α → β} {committed : β}

def Status.Shows (committed : β) : Status → List β → Prop
  | .absent, phases => phases = []
  | .registered, phases => ∃ phase, phase ≠ committed ∧ phases = [phase]
  | .parked, phases => phases = [committed]

def Matches (key : α → Nat) (phase : α → β) (committed : β) (queue : List α) (status : Nat → Status) : Prop :=
  ∀ id, (status id).Shows committed (fields key phase queue id)

variable {queue left : List α} {status : Nat → Status} {wanted : α → Bool} {change : α → Option α} {taken : α}

theorem Matches.start : Matches key phase committed [] fun _ => .absent := fun _ => rfl

theorem Matches.congr (table : Matches key phase committed queue status) {now : Nat → Status}
    (same : ∀ id, now id = status id) : Matches key phase committed queue now := fun id => same id ▸ table id

theorem Matches.register (table : Matches key phase committed queue status) {entry : α}
    (free : status (key entry) = .absent) (fresh : phase entry ≠ committed) :
    Matches key phase committed (queue ++ [entry]) (Function.update status (key entry) .registered) := by
  intro id
  have shown := table id
  rw [fields_append]
  by_cases same : id = key entry
  · subst same
    rw [free] at shown
    rw [Function.update_self, show fields key phase queue (key entry) = [] from shown, fields_cons_self]
    exact ⟨_, fresh, rfl⟩
  · rw [Function.update_of_ne same, fields_cons_of_ne key phase same]
    exact (List.append_nil (fields key phase queue id)).symm ▸ shown

theorem Matches.park (table : Matches key phase committed queue status) {entry : α}
    (free : status (key entry) = .absent) (parks : phase entry = committed) :
    Matches key phase committed (queue ++ [entry]) (Function.update status (key entry) .parked) := by
  intro id
  have shown := table id
  rw [fields_append]
  by_cases same : id = key entry
  · subst same
    rw [free] at shown
    rw [Function.update_self, show fields key phase queue (key entry) = [] from shown, fields_cons_self, parks]
    rfl
  · rw [Function.update_of_ne same, fields_cons_of_ne key phase same]
    exact (List.append_nil (fields key phase queue id)).symm ▸ shown

theorem Matches.status_of_mem (table : Matches key phase committed queue status) {entry : α} (member : entry ∈ queue) :
    fields key phase queue (key entry) = [phase entry] ∧
      (phase entry = committed → status (key entry) = .parked) ∧
      (phase entry ≠ committed → status (key entry) = .registered) := by
  have shown := table (key entry)
  have present := @mem_fields α β key phase queue entry member
  cases stands : status (key entry) with
  | absent =>
    rw [stands] at shown
    rw [show fields key phase queue (key entry) = [] from shown] at present
    cases present
  | registered =>
    rw [stands] at shown
    obtain ⟨only, open_entry, single⟩ := shown
    rw [single, List.mem_singleton] at present
    subst present
    exact ⟨single, fun same => absurd same open_entry, fun _ => rfl⟩
  | parked =>
    rw [stands] at shown
    have single : fields key phase queue (key entry) = [committed] := shown
    rw [single, List.mem_singleton] at present
    exact ⟨present ▸ single, fun _ => rfl, fun other => absurd present other⟩

theorem Matches.parked_iff (table : Matches key phase committed queue status) (id : Nat) :
    status id = .parked ↔ ∃ entry ∈ queue, phase entry = committed ∧ key entry = id := by
  constructor
  · intro parked
    have shown := table id
    rw [parked] at shown
    have present : committed ∈ fields key phase queue id := by
      rw [show fields key phase queue id = [committed] from shown]
      exact List.mem_singleton_self committed
    obtain ⟨entry, member, same⟩ := List.mem_map.mp present
    exact ⟨entry, (List.mem_filter.mp member).1, same, by simpa using (List.mem_filter.mp member).2⟩
  · rintro ⟨entry, member, same, rfl⟩
    exact (table.status_of_mem member).2.1 same

theorem Matches.served (table : Matches key phase committed queue status)
    (found : takeFirst wanted change queue = some (taken, left))
    (keeps : ∀ entry, change taken = some entry → key entry = key taken ∧ phase entry ≠ committed)
    (gone : change taken = none ↔ phase taken = committed) :
    (phase taken = committed → status (key taken) = .parked ∧
      Matches key phase committed left (Function.update status (key taken) .absent)) ∧
    (phase taken ≠ committed → status (key taken) = .registered ∧ Matches key phase committed left status) := by
  obtain ⟨before, after, split, -, -, -⟩ := takeFirst_some found
  obtain ⟨single, ifParked, ifOpen⟩ := table.status_of_mem (show taken ∈ queue by simp [split])
  have own := (fields_takeFirst_single found (fun entry changed => (keeps entry changed).1) single).2
  have others := fun id (other : id ≠ key taken) =>
    @fields_takeFirst_of_ne α β wanted change key phase queue left taken id found
      (fun entry changed => (keeps entry changed).1) other
  constructor
  · intro parked
    refine ⟨ifParked parked, fun id => ?_⟩
    by_cases same : id = key taken
    · subst same
      rw [Function.update_self, own, gone.mpr parked]
      rfl
    · rw [Function.update_of_ne same, others id same]
      exact table id
  · intro waiting
    refine ⟨ifOpen waiting, fun id => ?_⟩
    by_cases same : id = key taken
    · subst same
      cases changed : change taken with
      | none => exact absurd (gone.mp changed) waiting
      | some entry =>
        rw [own, changed, ifOpen waiting]
        exact ⟨_, (keeps entry changed).2, rfl⟩
    · rw [others id same]
      exact table id

theorem Matches.served_woken (table : Matches key phase committed queue status) {woken : List Nat}
    (found : takeFirst wanted change queue = some (taken, left))
    (keeps : ∀ entry, change taken = some entry → key entry = key taken ∧ phase entry ≠ committed)
    (gone : change taken = none ↔ phase taken = committed)
    (wakes : phase taken = committed → woken = [key taken]) (waits : phase taken ≠ committed → woken = []) :
    woken.Nodup ∧ (∀ id ∈ woken, status id = .parked) ∧
      Matches key phase committed left fun id => if id ∈ woken then .absent else status id := by
  obtain ⟨ifParked, ifOpen⟩ := table.served found keeps gone
  by_cases parked : phase taken = committed
  · rw [wakes parked]
    obtain ⟨stands, rows⟩ := ifParked parked
    refine ⟨List.nodup_singleton _, fun id member => List.mem_singleton.mp member ▸ stands, rows.congr fun id => ?_⟩
    by_cases same : id = key taken
    · subst same
      simp
    · simp [same]
  · rw [waits parked]
    exact ⟨List.nodup_nil, fun _ member => by simp at member, (ifOpen parked).2.congr fun _ => by simp⟩

theorem Matches.recheck (table : Matches key phase committed queue status) {id : Nat}
    (registered : status id = .registered)
    (commits : ∀ before after, change before = some after → key after = key before ∧ phase after = committed) :
    ∃ taken left, takeFirst (key · = id) change queue = some (taken, left) ∧ key taken = id ∧
      phase taken ≠ committed ∧
      Matches key phase committed left
        (Function.update status id (if (change taken).isSome then .parked else .absent)) := by
  have shown := table id
  rw [registered] at shown
  obtain ⟨only, waiting, single⟩ := shown
  obtain ⟨taken, left, found, keyed, same⟩ := @takeFirst_key _ _ change key phase queue id only single
  subst keyed same
  refine ⟨taken, left, found, rfl, waiting, fun id => ?_⟩
  have keeps : ∀ entry, change taken = some entry → key entry = key taken := fun entry changed =>
    (commits taken entry changed).1
  by_cases own : id = key taken
  · subst own
    rw [Function.update_self, (fields_takeFirst_single found keeps single).2]
    cases changed : change taken with
    | none => rfl
    | some entry => exact congrArg (fun phase => [phase]) (commits taken entry changed).2
  · rw [Function.update_of_ne own, fields_takeFirst_of_ne found keeps own]
    exact table id

theorem Matches.count_le_one (table : Matches key phase committed queue status) (id : Nat) :
    (queue.map key).count id ≤ 1 := by
  have shown := table id
  have length : (queue.map key).count id = (fields key phase queue id).length := by
    unfold fields
    rw [List.length_map, List.count_eq_countP, List.countP_map, List.countP_eq_length_filter]
    congr 1
  rw [length]
  cases stands : status id with
  | absent =>
    rw [stands] at shown
    rw [show fields key phase queue id = [] from shown]
    exact Nat.zero_le _
  | registered =>
    rw [stands] at shown
    obtain ⟨only, -, single⟩ := shown
    rw [single]
    exact Nat.le_refl _
  | parked =>
    rw [stands] at shown
    rw [show fields key phase queue id = [committed] from shown]
    exact Nat.le_refl _

theorem Matches.keys_nodup (table : Matches key phase committed queue status) (out : α → Bool) :
    ((queue.filter out).map key).Nodup := by
  have nodup : (queue.map key).Nodup := List.nodup_iff_count_le_one.mpr table.count_le_one
  exact (List.filter_sublist.map key).nodup nodup

theorem Matches.removed (table : Matches key phase committed queue status) (out : α → Bool) :
    Matches key phase committed (queue.filter fun entry => ¬ out entry = true)
      fun id => if id ∈ (queue.filter out).map key then .absent else status id := by
  intro id
  have shown := table id
  change (if id ∈ (queue.filter out).map key then Status.absent else status id).Shows committed _
  by_cases taken : id ∈ (queue.filter out).map key
  · rw [if_pos taken]
    refine fields_eq_nil.mpr fun entry member same => ?_
    obtain ⟨first, firstMember, firstKey⟩ := List.mem_map.mp taken
    obtain ⟨present, kept⟩ := List.mem_filter.mp member
    obtain ⟨firstPresent, firstTaken⟩ := List.mem_filter.mp firstMember
    -- the two entries are one, which cannot be both taken and kept
    have distinct : first ≠ entry := fun equal => by simp [← equal, firstTaken] at kept
    have nodup : (queue.map key).Nodup := List.nodup_iff_count_le_one.mpr table.count_le_one
    exact distinct (List.inj_on_of_nodup_map nodup firstPresent present (firstKey.trans same.symm))
  · rw [if_neg taken]
    have same : fields key phase (queue.filter fun entry => ¬ out entry = true) id = fields key phase queue id := by
      unfold fields
      congr 1
      rw [List.filter_filter]
      apply List.filter_congr
      intro entry member
      by_cases own : key entry = id
      · have kept : out entry = false := by
          by_contra other
          exact taken (List.mem_map.mpr ⟨entry, List.mem_filter.mpr ⟨member, by simpa using other⟩, own⟩)
        simp [kept]
      · simp [own]
    rw [same]
    exact shown

theorem Matches.swept (table : Matches key phase committed queue status)
    (keeps : ∀ before after, change before = some after → key after = key before ∧ phase after ≠ committed)
    (gone : ∀ entry, change entry = none ↔ phase entry = committed) :
    Matches key phase committed (queue.filterMap change)
      fun id => if status id = .parked then .absent else status id := by
  intro id
  have shown := table id
  have left_over : fields key phase (queue.filterMap change) id =
      ((queue.filter (key · = id)).filterMap change).map phase := by
    unfold fields
    congr 1
    rw [List.filter_filterMap, List.filterMap_filter]
    apply List.filterMap_congr
    intro entry _
    cases changed : change entry with
    | none => simp
    | some after => simp [Option.filter, (keeps entry after changed).1]
  rw [left_over]
  unfold fields at shown
  generalize queue.filter (key · = id) = own at shown ⊢
  change (if status id = .parked then Status.absent else status id).Shows committed _
  cases stands : status id with
  | absent =>
    rw [stands] at shown
    rw [if_neg Status.noConfusion, List.map_eq_nil_iff.mp shown]
    rfl
  | parked =>
    rw [stands] at shown
    obtain ⟨entry, rfl, parked⟩ := List.map_eq_singleton_iff.mp shown
    rw [if_pos rfl, List.filterMap_cons_none ((gone entry).mpr parked)]
    rfl
  | registered =>
    rw [stands] at shown
    rw [if_neg Status.noConfusion]
    obtain ⟨only, waiting, single⟩ := shown
    obtain ⟨entry, rfl, same⟩ := List.map_eq_singleton_iff.mp single
    cases changed : change entry with
    | none => exact absurd (same ▸ (gone entry).mp changed) waiting
    | some after =>
      rw [List.filterMap_cons_some changed]
      exact ⟨_, (keeps entry after changed).2, rfl⟩

theorem Matches.rephased (table : Matches key phase committed queue status) {now : List α}
    (same : List.Forall₂ (fun entry after => key after = key entry ∧ phase entry ≠ committed ∧ phase after ≠ committed)
      queue now) : Matches key phase committed now status := by
  intro id
  have shown := table id
  have each : List.Forall₂ (fun before after => before ≠ committed ∧ after ≠ committed)
      (fields key phase queue id) (fields key phase now id) := by
    clear shown table
    induction same with
    | nil => exact .nil
    | @cons entry after rest later keyed _ ih =>
      by_cases own : id = key entry
      · subst own
        rw [fields_cons_self, ← keyed.1, fields_cons_self, keyed.1]
        exact .cons keyed.2 ih
      · rw [fields_cons_of_ne key phase own, fields_cons_of_ne key phase fun same => own (same.trans keyed.1)]
        exact ih
  generalize fields key phase queue id = before at shown each
  generalize fields key phase now id = after at each ⊢
  cases stands : status id with
  | absent =>
    rw [stands] at shown
    cases show before = [] from shown
    cases each
    rfl
  | registered =>
    rw [stands] at shown
    obtain ⟨only, -, rfl⟩ := shown
    cases each with
    | cons keyed rest =>
      cases rest
      exact ⟨_, keyed.2, rfl⟩
  | parked =>
    rw [stands] at shown
    cases show before = [committed] from shown
    cases each with
    | cons keyed _ => exact absurd rfl keyed.1

end NLang.Library.ParkTables
