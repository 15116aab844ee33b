import Mathlib

/-!
# Taking the first wanted entry of a queue

A queue is searched from its front for an entry; the entry is removed or changed in place and the others stay
where they are. A stable sort keeps the order of the entries that tie.
-/

namespace NLang.Library.Queues

variable {α β : Type} {wanted : α → Bool} {change : α → Option α}

def takeFirst (wanted : α → Bool) (change : α → Option α) : List α → Option (α × List α)
  | [] => none
  | entry :: rest =>
    if wanted entry then some (entry, (change entry).toList ++ rest)
    else (takeFirst wanted change rest).map fun (taken, left) => (taken, entry :: left)

theorem takeFirst_none {queue : List α} :
    takeFirst wanted change queue = none ↔ ∀ entry ∈ queue, wanted entry = false := by
  induction queue with
  | nil => simp [takeFirst]
  | cons entry rest ih =>
    rw [takeFirst]
    by_cases want : wanted entry = true
    · simp [want]
    · simp [want, ih]

theorem takeFirst_some {queue left : List α} {taken : α}
    (found : takeFirst wanted change queue = some (taken, left)) :
    ∃ before after, queue = before ++ taken :: after ∧ (∀ entry ∈ before, wanted entry = false) ∧
      wanted taken = true ∧ left = before ++ ((change taken).toList ++ after) := by
  induction queue generalizing left with
  | nil => cases found
  | cons entry rest ih =>
    rw [takeFirst] at found
    by_cases want : wanted entry = true
    · rw [if_pos want] at found
      cases found
      exact ⟨[], rest, rfl, by simp, want, rfl⟩
    · rw [if_neg want] at found
      obtain ⟨⟨later, shorter⟩, foundLater, equal⟩ := Option.map_eq_some_iff.mp found
      cases equal
      obtain ⟨before, after, split, unwanted, wantTaken, leaves⟩ := ih foundLater
      refine ⟨entry :: before, after, by rw [split]; rfl, ?_, wantTaken, by rw [leaves]; rfl⟩
      simpa [want] using unwanted

theorem filterMap_served {queue left : List α} {taken : α} {view : α → Option β} {seen : β}
    (found : takeFirst wanted change queue = some (taken, left))
    (hidden : ∀ entry, wanted entry = false → view entry = none) (shown : view taken = some seen)
    (served : ∀ entry, change taken = some entry → wanted entry = false) :
    queue.filterMap view = seen :: left.filterMap view := by
  obtain ⟨before, after, split, unwanted, -, leaves⟩ := takeFirst_some found
  have none_before : before.filterMap view = [] :=
    List.filterMap_eq_nil_iff.mpr fun entry member => hidden entry (unwanted entry member)
  have none_changed : (change taken).toList.filterMap view = [] := by
    cases changed : change taken with
    | none => rfl
    | some entry => simp [hidden entry (served entry changed)]
  rw [split, leaves, List.filterMap_append, List.filterMap_append, List.filterMap_append, none_before,
    none_changed, List.filterMap_cons_some shown]
  rfl

theorem filterMap_takeFirst {queue left : List α} {taken : α} (view : α → Option β)
    (found : takeFirst wanted change queue = some (taken, left))
    (same : (change taken).bind view = view taken) :
    left.filterMap view = queue.filterMap view := by
  obtain ⟨before, after, split, -, -, leaves⟩ := takeFirst_some found
  have changed : (change taken).toList.filterMap view = [taken].filterMap view := by
    cases isChanged : change taken with
    | none => simpa [isChanged, eq_comm] using same
    | some entry =>
      have shown : view entry = view taken := by simpa [isChanged] using same
      simp [List.filterMap_cons, shown]
  rw [split, leaves, List.filterMap_append, List.filterMap_append, List.filterMap_append, changed,
    ← List.filterMap_append]
  rfl

variable (key : α → Nat) (field : α → β)

def fields (queue : List α) (id : Nat) : List β := (queue.filter (key · = id)).map field

theorem fields_append (front back : List α) (id : Nat) :
    fields key field (front ++ back) id = fields key field front id ++ fields key field back id := by
  simp [fields]

theorem fields_cons_self (entry : α) (rest : List α) :
    fields key field (entry :: rest) (key entry) = field entry :: fields key field rest (key entry) := by
  simp [fields]

theorem fields_cons_of_ne {entry : α} {id : Nat} (other : id ≠ key entry) (rest : List α) :
    fields key field (entry :: rest) id = fields key field rest id := by
  simp [fields, other.symm]

variable {key field}

theorem fields_eq_nil {queue : List α} {id : Nat} :
    fields key field queue id = [] ↔ ∀ entry ∈ queue, key entry ≠ id := by
  simp [fields]

theorem mem_fields {queue : List α} {entry : α} (member : entry ∈ queue) :
    field entry ∈ fields key field queue (key entry) :=
  List.mem_map_of_mem (List.mem_filter.mpr ⟨member, by simp⟩)

theorem fields_takeFirst_of_ne {queue left : List α} {taken : α} {id : Nat}
    (found : takeFirst wanted change queue = some (taken, left))
    (keeps : ∀ entry, change taken = some entry → key entry = key taken) (other : id ≠ key taken) :
    fields key field left id = fields key field queue id := by
  obtain ⟨before, after, split, -, -, leaves⟩ := takeFirst_some found
  have changed : fields key field (change taken).toList id = [] := by
    cases isChanged : change taken with
    | none => rfl
    | some entry => simpa [fields, keeps entry isChanged] using other.symm
  rw [split, leaves, fields_append, fields_append, fields_append, changed, fields_cons_of_ne key field other,
    List.nil_append]

theorem fields_takeFirst_single {queue left : List α} {taken : α} {only : β}
    (found : takeFirst wanted change queue = some (taken, left))
    (keeps : ∀ entry, change taken = some entry → key entry = key taken)
    (single : fields key field queue (key taken) = [only]) :
    field taken = only ∧ fields key field left (key taken) = ((change taken).map field).toList := by
  obtain ⟨before, after, split, -, -, leaves⟩ := takeFirst_some found
  have changed : fields key field (change taken).toList (key taken) = ((change taken).map field).toList := by
    cases isChanged : change taken with
    | none => rfl
    | some entry => simp [fields, keeps entry isChanged]
  rw [split, fields_append, fields_cons_self] at single
  rw [leaves, fields_append, fields_append, changed]
  obtain ⟨none_before, rest⟩ | ⟨none_before, rest⟩ := List.append_eq_singleton_iff.mp single
  · obtain ⟨same, none_after⟩ := List.cons.inj rest
    rw [none_before, none_after]
    exact ⟨same, by simp⟩
  · cases rest

theorem takeFirst_key {queue : List α} {id : Nat} {only : β} (single : fields key field queue id = [only]) :
    ∃ taken left, takeFirst (key · = id) change queue = some (taken, left) ∧ key taken = id ∧
      field taken = only := by
  cases found : takeFirst (key · = id) change queue with
  | none =>
    have absent := takeFirst_none.mp found
    rw [fields_eq_nil.mpr fun entry member => by simpa using absent entry member] at single
    cases single
  | some result =>
    obtain ⟨taken, left⟩ := result
    obtain ⟨before, after, split, unwanted, wantTaken, -⟩ := takeFirst_some found
    have keyed : key taken = id := by simpa using wantTaken
    refine ⟨taken, left, rfl, keyed, ?_⟩
    have none_before : fields key field before id = [] :=
      fields_eq_nil.mpr fun entry member => by simpa using unwanted entry member
    rw [split, fields_append, none_before, ← keyed, fields_cons_self] at single
    exact (List.cons.inj single).1

theorem filter_mergeSort {le : α → α → Bool} (transitive : ∀ a b c, le a b → le b c → le a c)
    (total : ∀ a b, le a b || le b a) {tied : α → Bool} (ties : ∀ a b, tied a → tied b → le a b) (queue : List α) :
    (queue.mergeSort le).filter tied = queue.filter tied := by
  have ordered : (queue.filter tied).Pairwise fun a b => le a b :=
    List.pairwise_of_forall_mem_list fun a front b back =>
      ties a b (List.mem_filter.mp front).2 (List.mem_filter.mp back).2
  have kept : (queue.filter tied).Sublist (queue.mergeSort le) :=
    List.sublist_mergeSort transitive total ordered List.filter_sublist
  have tiedKept := kept.filter tied
  rw [List.filter_filter] at tiedKept
  simp only [Bool.and_self] at tiedKept
  exact (tiedKept.eq_of_length ((List.mergeSort_perm queue le).symm.filter tied).length_eq).symm

end NLang.Library.Queues
