import NLang.Library.Runs

/-!
# Socket handles

`net_slots.cpp`: the sockets of an executor. A handle is an index and seven bits of the generation that the slot had when the
handle was given out. The vector of slots only grows, and the back of the free list is at its head.
-/

namespace NLang.Native
open NLang.Library.Runs

inductive NetDir where
  | read
  | write
  | accept
  deriving DecidableEq

structure NetSocketSlot where
  fd : Int := -1
  kind : Nat := 0
  closed : Bool := false
  generation : Nat := 0
  waiter : NetDir → Nat := fun _ => 0

def kNetHandleIndexBits : Nat := 24

def kGenMask : Nat := 0x7F

structure NetSocketTable where
  size : Nat := 0
  slot : Nat → NetSocketSlot := fun _ => {}
  freeList : List Nat := []

namespace NetSocketTable
variable (table : NetSocketTable)

def setSlot (i : Nat) (slot : NetSocketSlot) : NetSocketTable := { table with slot := Function.update table.slot i slot }

/-- Masks and shifts of an `int32_t`. -/
def slotOf (handle : Int) : Option Nat :=
  let index := handle % 2 ^ kNetHandleIndexBits - 1
  if index < 0 ∨ table.size ≤ index then none
  else if (table.slot index.toNat).kind = 0 then none
  else if handle / 2 ^ kNetHandleIndexBits ≠ ((table.slot index.toNat).generation &&& kGenMask : Nat) then none
  else some index.toNat

def lookup (handle : Int) : Option Nat := (table.slotOf handle).filter fun i => !(table.slot i).closed

def fdOf (handle : Int) : Int := (table.lookup handle).elim (-1) fun i => (table.slot i).fd

/-- The slot that `Mint` takes. -/
def mintIndex : Nat := table.freeList.headD table.size

def mint (fd : Int) (kind : Nat) : Int × NetSocketTable :=
  let index := table.mintIndex
  let slot := { table.slot index with fd, kind, closed := false, waiter := fun _ => 0 }
  (((slot.generation &&& kGenMask) <<< kNetHandleIndexBits ||| (index + 1) : Nat),
    { table.setSlot index slot with
      size := if table.freeList = [] then table.size + 1 else table.size
      freeList := table.freeList.tail })

def recycle (i : Nat) : NetSocketTable :=
  let slot := table.slot i
  { table.setSlot i { slot with fd := -1, kind := 0, generation := (slot.generation + 1) &&& kGenMask } with
    freeList := i :: table.freeList }

end NetSocketTable

/-! ## Runs -/

/-- A socket that was minted: its handle, and how often its slot had been recycled by then. -/
structure Minted where
  handle : Int
  fd : Int
  index : Nat
  recycles : Nat

/-- `recycled` logs the slots that `Recycle` gives back. -/
structure NetState where
  table : NetSocketTable := {}
  recycled : List Nat := []
  minted : List Minted := []

inductive NetAction where
  | mint (fd : Int) (kind : Nat)
  | setWaiter (handle : Int) (dir : NetDir) (contextId : Nat)
  | releaseWaiter (handle : Int) (dir : NetDir)
  | markClosed (handle : Int)

namespace NetState
variable (s : NetState)

def recycle (i : Nat) : NetState := { s with table := s.table.recycle i, recycled := i :: s.recycled }

def setSlot (i : Nat) (slot : NetSocketSlot) : NetState := { s with table := s.table.setSlot i slot }

def step (s : NetState) : NetAction → Option NetState
  | .mint fd kind =>
    let (handle, table) := s.table.mint fd kind
    let index := s.table.mintIndex
    some { s with table, minted := ⟨handle, fd, index, s.recycled.count index⟩ :: s.minted }
  | .setWaiter handle dir contextId =>
    some ((s.table.lookup handle).elim s fun i =>
      s.setSlot i { s.table.slot i with waiter := Function.update (s.table.slot i).waiter dir contextId })
  | .releaseWaiter handle dir =>
    some ((s.table.slotOf handle).elim s fun i =>
      let slot := { s.table.slot i with waiter := Function.update (s.table.slot i).waiter dir 0 }
      if slot.closed then (s.setSlot i slot).recycle i else s.setSlot i slot)
  | .markClosed handle =>
    some ((s.table.slotOf handle).elim s fun i =>
      let slot := { s.table.slot i with closed := true }
      if (s.table.slot i).closed then s
      else if ∀ dir ∈ [NetDir.accept, .read, .write], slot.waiter dir = 0 then (s.setSlot i slot).recycle i
      else s.setSlot i slot)

/-- Sockets have a kind, and a new slot has an index that the handle can hold. -/
def Meets (s : NetState) : NetAction → Prop
  | .mint _ kind => kind ≠ 0 ∧ s.table.mintIndex + 1 < 2 ^ kNetHandleIndexBits
  | _ => True

end NetState

structure NetInv (s : NetState) : Prop where
  generation : ∀ i, (s.table.slot i).generation = s.recycled.count i % 128
  free : s.table.freeList.Nodup ∧ ∀ i ∈ s.table.freeList, i < s.table.size ∧ (s.table.slot i).kind = 0
  used : ∀ i, (s.table.slot i).kind ≠ 0 → i < s.table.size
  minted : ∀ m ∈ s.minted, m.index < s.table.size ∧ m.index + 1 < 2 ^ kNetHandleIndexBits ∧
    m.handle = (m.recycles % 128 : Nat) * 2 ^ kNetHandleIndexBits + (m.index + 1 : Nat) ∧
    m.recycles ≤ s.recycled.count m.index ∧
    (s.recycled.count m.index = m.recycles → (s.table.slot m.index).kind ≠ 0 ∧ (s.table.slot m.index).fd = m.fd)
  waits : ∀ i, (s.table.slot i).kind ≠ 0 → (s.table.slot i).closed = true → ∃ dir, (s.table.slot i).waiter dir ≠ 0

theorem and_genMask (generation : Nat) : generation &&& kGenMask = generation % 128 :=
  Nat.and_two_pow_sub_one_eq_mod generation 7

namespace NetInv
variable {s : NetState} (inv : NetInv s)
include inv

theorem setSlot {i : Nat} {slot : NetSocketSlot} (sameFd : slot.fd = (s.table.slot i).fd)
    (sameKind : slot.kind = (s.table.slot i).kind) (sameGeneration : slot.generation = (s.table.slot i).generation)
    (waits : slot.closed = true → ∃ dir, slot.waiter dir ≠ 0) : NetInv (s.setSlot i slot) := by
  have kept : ∀ j, ((s.setSlot i slot).table.slot j).fd = (s.table.slot j).fd ∧
      ((s.setSlot i slot).table.slot j).kind = (s.table.slot j).kind ∧
      ((s.setSlot i slot).table.slot j).generation = (s.table.slot j).generation := by
    intro j
    by_cases same : j = i
    · subst same
      simp [NetState.setSlot, NetSocketTable.setSlot, sameFd, sameKind, sameGeneration]
    · simp [NetState.setSlot, NetSocketTable.setSlot, Function.update_of_ne same]
  constructor
  · exact fun j => (kept j).2.2.trans (inv.generation j)
  · exact ⟨inv.free.1, fun j member => ⟨(inv.free.2 j member).1, (kept j).2.1.trans (inv.free.2 j member).2⟩⟩
  · exact fun j live => inv.used j ((kept j).2.1 ▸ live)
  · intro m member
    rw [(kept m.index).1, (kept m.index).2.1]
    exact inv.minted m member
  · intro j
    by_cases same : j = i
    · subst same
      simpa [NetState.setSlot, NetSocketTable.setSlot] using fun _ => waits
    · simpa [NetState.setSlot, NetSocketTable.setSlot, Function.update_of_ne same] using inv.waits j

/-- A slot comes back to the free list with its next generation, so no handle given out before has its incarnation. -/
theorem recycle {i : Nat} {slot : NetSocketSlot} (live : (s.table.slot i).kind ≠ 0)
    (sameGeneration : slot.generation = (s.table.slot i).generation) : NetInv ((s.setSlot i slot).recycle i) := by
  have here : ((s.setSlot i slot).recycle i).table.slot i =
      { slot with fd := -1, kind := 0, generation := ((s.table.slot i).generation + 1) &&& kGenMask } := by
    simp [NetState.recycle, NetState.setSlot, NetSocketTable.recycle, NetSocketTable.setSlot, sameGeneration]
  have elsewhere : ∀ j, j ≠ i → ((s.setSlot i slot).recycle i).table.slot j = s.table.slot j := fun j apart => by
    simp [NetState.recycle, NetState.setSlot, NetSocketTable.recycle, NetSocketTable.setSlot, apart]
  have log : ((s.setSlot i slot).recycle i).recycled = i :: s.recycled := rfl
  constructor
  · intro j
    rw [log]
    by_cases same : j = i
    · subst same
      rw [here, List.count_cons_self, inv.generation]
      exact (and_genMask _).trans (Nat.mod_add_mod _ _ _)
    · rw [elsewhere j same, List.count_cons_of_ne (Ne.symm same), inv.generation]
  · refine ⟨List.nodup_cons.mpr ⟨fun member => live (inv.free.2 i member).2, inv.free.1⟩, fun j member => ?_⟩
    by_cases same : j = i
    · subst same
      exact ⟨inv.used j live, congrArg (·.kind) here⟩
    · have before := inv.free.2 j ((List.mem_cons.mp member).resolve_left same)
      exact ⟨before.1, (congrArg (·.kind) (elsewhere j same)).trans before.2⟩
  · intro j used
    by_cases same : j = i
    · subst same
      exact inv.used j live
    · exact inv.used j ((elsewhere j same) ▸ used)
  · intro m member
    obtain ⟨inside, small, handle, before, current⟩ := inv.minted m member
    rw [log]
    refine ⟨inside, small, handle, before.trans List.count_le_count_cons, fun equal => ?_⟩
    by_cases same : m.index = i
    · rw [same, List.count_cons_self] at equal
      rw [same] at before
      omega
    · rw [List.count_cons_of_ne (Ne.symm same)] at equal
      rw [elsewhere _ same]
      exact current equal
  · intro j used
    by_cases same : j = i
    · subst same
      exact absurd (congrArg (·.kind) here) used
    · rw [elsewhere j same] at used ⊢
      exact inv.waits j used

theorem mintIndex_free : (s.table.slot s.table.mintIndex).kind = 0 ∧ s.table.mintIndex ∉ s.table.freeList.tail ∧
    s.table.size ≤ (s.table.mint 0 0).2.size ∧ s.table.mintIndex < (s.table.mint 0 0).2.size := by
  obtain ⟨nodup, free⟩ := inv.free
  simp only [NetSocketTable.mint, NetSocketTable.mintIndex]
  cases shape : s.table.freeList with
  | nil =>
    refine ⟨by_contra fun live => ?_, by simp, by simp, by simp⟩
    exact Nat.lt_irrefl _ (inv.used _ live)
  | cons i rest =>
    rw [shape] at nodup free
    have head := free i (.head _)
    exact ⟨head.2, (List.nodup_cons.mp nodup).1, by simp, by simpa using head.1⟩

theorem mint {fd : Int} {kind : Nat} (met : s.Meets (.mint fd kind)) {s' : NetState} (taken : s.step (.mint fd kind) = some s') :
    NetInv s' := by
  obtain ⟨isKind, small⟩ := met
  obtain ⟨unused, notFree, grows, inside⟩ := inv.mintIndex_free
  cases taken
  have sameSize : (s.table.mint 0 0).2.size = (s.table.mint fd kind).2.size := rfl
  rw [sameSize] at grows inside
  have here : ((s.table.mint fd kind).2.slot s.table.mintIndex) =
      { s.table.slot s.table.mintIndex with fd, kind, closed := false, waiter := fun _ => 0 } := by
    simp [NetSocketTable.mint, NetSocketTable.setSlot]
  have elsewhere : ∀ j, j ≠ s.table.mintIndex → (s.table.mint fd kind).2.slot j = s.table.slot j := fun j apart => by
    simp [NetSocketTable.mint, NetSocketTable.setSlot, Function.update_of_ne apart]
  constructor
  · intro j
    by_cases same : j = s.table.mintIndex
    · subst same
      exact (congrArg (·.generation) here).trans (inv.generation _)
    · exact (congrArg (·.generation) (elsewhere j same)).trans (inv.generation j)
  · refine ⟨inv.free.1.tail, fun j member => ?_⟩
    have before := inv.free.2 j (List.mem_of_mem_tail member)
    have apart : j ≠ s.table.mintIndex := fun same => notFree (same ▸ member)
    exact ⟨Nat.lt_of_lt_of_le before.1 grows, (congrArg (·.kind) (elsewhere j apart)).trans before.2⟩
  · intro j live
    by_cases same : j = s.table.mintIndex
    · exact same ▸ inside
    · exact Nat.lt_of_lt_of_le (inv.used j fun dead => live ((congrArg (·.kind) (elsewhere j same)).trans dead)) grows
  · intro m member
    rcases List.mem_cons.mp member with rfl | member
    · refine ⟨inside, small, ?_, Nat.le_refl _, fun _ => ⟨?_, congrArg (·.fd) here⟩⟩
      · have bits := Nat.two_pow_add_eq_or_of_lt small (s.recycled.count s.table.mintIndex % 128)
        simp only [and_genMask, inv.generation, Nat.mod_mod, Nat.shiftLeft_eq, Nat.mul_comm _ (2 ^ kNetHandleIndexBits), ← bits]
        push_cast
        ring
      · exact fun dead => isKind ((congrArg (·.kind) here).symm.trans dead)
    · obtain ⟨within, bounded, handle, before, current⟩ := inv.minted m member
      refine ⟨Nat.lt_of_lt_of_le within grows, bounded, handle, before, fun equal => ?_⟩
      have live := current equal
      have apart : m.index ≠ s.table.mintIndex := fun same => live.1 (same ▸ unused)
      exact ⟨(congrArg (·.kind) (elsewhere _ apart)).symm ▸ live.1, (congrArg (·.fd) (elsewhere _ apart)).trans live.2⟩
  · intro j live isClosed
    by_cases same : j = s.table.mintIndex
    · subst same
      cases (congrArg (·.closed) here).symm.trans isClosed
    · obtain ⟨dir, parked⟩ := inv.waits j (fun dead => live ((congrArg (·.kind) (elsewhere j same)).trans dead))
        ((congrArg (·.closed) (elsewhere j same)).symm.trans isClosed)
      exact ⟨dir, fun none => parked ((congrArg (·.waiter dir) (elsewhere j same)).symm.trans none)⟩

/-- The slot under a handle that was minted is in use, and its generation has the seven bits of that handle's. -/
theorem slotOf_iff {m : Minted} (member : m ∈ s.minted) (i : Nat) : s.table.slotOf m.handle = some i ↔
    i = m.index ∧ (s.table.slot i).kind ≠ 0 ∧ s.recycled.count i % 128 = m.recycles % 128 := by
  obtain ⟨inside, small, handle, -, -⟩ := inv.minted m member
  have low : m.handle % 2 ^ kNetHandleIndexBits - 1 = m.index := by
    rw [handle, Int.add_comm, Int.add_mul_emod_self_right, Int.emod_eq_of_lt (by omega) (by exact_mod_cast small)]
    omega
  have high : m.handle / 2 ^ kNetHandleIndexBits = (m.recycles % 128 : Nat) := by
    rw [handle, Int.add_comm, Int.add_mul_ediv_right _ _ (by simp [kNetHandleIndexBits]),
      Int.ediv_eq_zero_of_lt (by omega) (by exact_mod_cast small), Int.zero_add]
  rw [NetSocketTable.slotOf]
  simp only [low, high, Int.toNat_natCast, and_genMask, inv.generation, Nat.mod_mod]
  rw [if_neg (by omega)]
  by_cases live : (s.table.slot m.index).kind = 0
  · rw [if_pos live]
    refine ⟨fun none => (by cases none), ?_⟩
    rintro ⟨rfl, used, -⟩
    exact absurd live used
  · rw [if_neg live]
    by_cases same : s.recycled.count m.index % 128 = m.recycles % 128
    · rw [if_neg (by simp [same])]
      refine ⟨fun found => ?_, fun given => congrArg some given.1.symm⟩
      cases found
      exact ⟨rfl, live, same⟩
    · rw [if_pos (by exact_mod_cast Ne.symm same)]
      refine ⟨fun none => (by cases none), ?_⟩
      rintro ⟨rfl, -, equal⟩
      exact absurd equal same

omit inv in
theorem slotOf_live {handle : Int} {i : Nat} (found : s.table.slotOf handle = some i) : (s.table.slot i).kind ≠ 0 := by
  rw [NetSocketTable.slotOf] at found
  split at found
  · cases found
  · split at found
    · cases found
    · rename_i live
      split at found
      · cases found
      · cases found
        exact live

end NetInv

theorem lookup_iff {table : NetSocketTable} {handle : Int} {i : Nat} :
    table.lookup handle = some i ↔ table.slotOf handle = some i ∧ (table.slot i).closed = false := by
  simp [NetSocketTable.lookup, Option.filter_eq_some_iff]

theorem netStep_inv {s s' : NetState} {action : NetAction} (inv : NetInv s) (met : s.Meets action)
    (taken : s.step action = some s') : NetInv s' := by
  cases action with
  | mint fd kind => exact inv.mint met taken
  | setWaiter handle dir contextId =>
    cases found : s.table.lookup handle with
    | none =>
      simp only [NetState.step, found] at taken
      cases taken
      exact inv
    | some i =>
      simp only [NetState.step, found] at taken
      cases taken
      refine inv.setSlot rfl rfl rfl fun isClosed => ?_
      cases (lookup_iff.mp found).2.symm.trans isClosed
  | releaseWaiter handle dir =>
    cases found : s.table.slotOf handle with
    | none =>
      simp only [NetState.step, found] at taken
      cases taken
      exact inv
    | some i =>
      simp only [NetState.step, found, Option.elim_some] at taken
      split at taken
      · cases taken
        exact inv.recycle (NetInv.slotOf_live found) rfl
      · rename_i isOpen
        cases taken
        exact inv.setSlot rfl rfl rfl fun isClosed => absurd isClosed isOpen
  | markClosed handle =>
    cases found : s.table.slotOf handle with
    | none =>
      simp only [NetState.step, found] at taken
      cases taken
      exact inv
    | some i =>
      simp only [NetState.step, found, Option.elim_some] at taken
      split at taken
      · cases taken
        exact inv
      · split at taken
        · cases taken
          exact inv.recycle (NetInv.slotOf_live found) rfl
        · rename_i parked
          cases taken
          refine inv.setSlot rfl rfl rfl fun _ => by_contra fun idle => parked fun dir _ => ?_
          exact by_contra fun waits => idle ⟨dir, waits⟩

theorem start_inv : NetInv {} where
  generation _ := rfl
  free := ⟨.nil, List.forall_mem_nil _⟩
  used _ live := absurd rfl live
  minted := List.forall_mem_nil _
  waits _ live := absurd rfl live

/-- A handle finds the socket it was given out for, until its slot is recycled; from then on it finds nothing before the
slot has been recycled 128 times, when it finds another socket. A closed socket keeps its descriptor only for a waiter. -/
theorem handle_denotes {s : NetState} (run : Run NetState.step NetState.Meets {} s) {m : Minted} (member : m ∈ s.minted) :
    (∀ i, s.table.lookup m.handle = some i ↔ i = m.index ∧ (s.table.slot i).kind ≠ 0 ∧ (s.table.slot i).closed = false ∧
        s.recycled.count i % 128 = m.recycles % 128) ∧
      (s.recycled.count m.index < m.recycles + 128 → s.table.fdOf m.handle =
        if s.recycled.count m.index = m.recycles ∧ (s.table.slot m.index).closed = false then m.fd else -1) ∧
      ((s.table.slot m.index).kind ≠ 0 → (s.table.slot m.index).closed = true → ∃ dir, (s.table.slot m.index).waiter dir ≠ 0) := by
  have inv : NetInv s := run.invariant NetInv start_inv fun _ _ _ inv met taken => netStep_inv inv met taken
  obtain ⟨-, -, -, before, current⟩ := inv.minted m member
  have found : ∀ i, s.table.lookup m.handle = some i ↔ i = m.index ∧ (s.table.slot i).kind ≠ 0 ∧
      (s.table.slot i).closed = false ∧ s.recycled.count i % 128 = m.recycles % 128 := by
    intro i
    rw [lookup_iff, inv.slotOf_iff member]
    tauto
  refine ⟨found, fun recent => ?_, inv.waits m.index⟩
  have same : s.recycled.count m.index % 128 = m.recycles % 128 ↔ s.recycled.count m.index = m.recycles := by omega
  by_cases own : s.recycled.count m.index = m.recycles ∧ (s.table.slot m.index).closed = false
  · obtain ⟨live, sameFd⟩ := current own.1
    rw [if_pos own, NetSocketTable.fdOf, (found m.index).mpr ⟨rfl, live, own.2, same.mpr own.1⟩]
    exact sameFd
  · have none : s.table.lookup m.handle = none := by
      refine Option.eq_none_iff_forall_ne_some.mpr fun i equal => own ?_
      obtain ⟨rfl, -, isOpen, equal⟩ := (found i).mp equal
      exact ⟨same.mp equal, isOpen⟩
    rw [if_neg own, NetSocketTable.fdOf, none]
    rfl

/-- Another socket has the slot of the first by now. -/
theorem handle_denotes_reused : ∃ s, ∃ m ∈ s.minted, Run NetState.step NetState.Meets {} s ∧ s.table.size = 1 ∧
    s.table.fdOf 16777217 = 8 ∧ m.handle = 1 ∧ s.table.fdOf m.handle = -1 := by
  have run : Run NetState.step NetState.Meets {} _ := .tail (.tail (.tail .refl
    (show NetState.Meets _ (.mint 7 1) from ⟨by decide, by decide⟩) rfl)
    (show NetState.Meets _ (.markClosed 1) from trivial) rfl)
    (show NetState.Meets _ (.mint 8 2) from ⟨by decide, by decide⟩) rfl
  have member := List.mem_cons_of_mem (⟨16777217, 8, 0, 1⟩ : Minted) (List.mem_singleton_self (⟨1, 7, 0, 0⟩ : Minted))
  exact ⟨_, ⟨1, 7, 0, 0⟩, member, run, rfl, rfl, rfl, (handle_denotes run member).2.1 (by decide)⟩

end NLang.Native
