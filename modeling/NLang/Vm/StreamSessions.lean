import NLang.Library.Runs
import NLang.Vm.StreamWalk

/-!
# Sessions of object streams

The id tables of `ByteStreamState` over a heap whose indices are reused: they are keyed by heap index, they are no roots
of a collection, and a sweep does not look at them. Allocations and sessions carry a stamp, which is bookkeeping of the
model: an object is its index and its stamp. Any index on the free list may come to its top, and the heap may grow at any
time, as the shards of the allocator allow.
-/

namespace NLang.Vm.StreamSessions
open NLang.Library.Words NLang.Library.Decoding NLang.Library.Runs NLang.Vm.ObjectStream NLang.Vm.StreamWalk

structure Cell where
  stamp : Nat
  record : Record

structure StampedHeap where
  slots : List (Option Cell) := [none]
  free : List Nat := []
  clock : Nat := 0

namespace StampedHeap

def cellAt (h : StampedHeap) (i : Nat) : Option Cell := (h.slots[i]?).join

def stampAt (h : StampedHeap) (i : Nat) : Option Nat := (h.cellAt i).map (·.stamp)

def recordAt (h : StampedHeap) (i : Nat) : Option Record := (h.cellAt i).map (·.record)

def takeSlot (h : StampedHeap) (record : Record) : Nat × StampedHeap :=
  match h.free with
  | i :: rest =>
    (i, { slots := h.slots.set i (some ⟨h.clock, record⟩), free := rest, clock := h.clock + 1 })
  | [] => (h.slots.length, { h with slots := h.slots ++ [some ⟨h.clock, record⟩], clock := h.clock + 1 })

def storeRecord (h : StampedHeap) (i : Nat) (record : Record) : StampedHeap :=
  { h with slots := h.slots.modify i (Option.map fun cell => { cell with record }) }

def sweep (h : StampedHeap) (marks : Nat → Bool) : StampedHeap :=
  let slots := h.slots.mapIdx fun i cell => if marks i then cell else none
  { h with slots, free := (List.range slots.length).filter fun i => 0 < i ∧ (slots[i]?).join.isNone }

def growBy (h : StampedHeap) (quantum : Nat) : StampedHeap :=
  { h with slots := h.slots ++ List.replicate quantum none, free := List.range' h.slots.length quantum ++ h.free }

def materialize (h : StampedHeap) (i : Nat) : Option (Record × StampedHeap) :=
  match h.recordAt i with
  | some (.view arrayTypeIdx dims strides offset target) =>
    match h.recordAt target with
    | some (.array _ _ elements) =>
      let element := fun flat => elements.getD (viewAddress dims strides offset flat).toNat default
      let record := .array arrayTypeIdx dims ((List.range dims.prod.toNat).map element)
      some (record, (h.takeSlot record).2)
    | _ => none
  | some record => some (record, h)
  | none => none

end StampedHeap

structure Entry where
  index : Nat
  id : UInt32
  stamp : Nat
  session : Nat

structure ByteStream where
  buf : Bytes := []
  pos : Nat := 0
  serializeObjIds : List Entry := []
  deserializeObjIds : List Entry := []
  nextObjId : UInt32 := 1
  session : Nat

def ByteStream.clearObjIdState (stream : ByteStream) (session : Nat) : ByteStream :=
  { stream with serializeObjIds := [], deserializeObjIds := [], nextObjId := 1, session }

structure Resolution where
  entry : Entry
  now : Option Nat
  session : Nat

structure Session where
  heap : StampedHeap
  stream : ByteStream
  log : List Resolution

namespace Session

def resolved (s : Session) (entry : Entry) : Session :=
  { s with log := s.log ++ [⟨entry, s.heap.stampAt entry.index, s.stream.session⟩] }

def entryFor (s : Session) (i : Nat) : Entry :=
  { index := i, id := s.stream.nextObjId, stamp := (s.heap.stampAt i).getD 0, session := s.stream.session }

def writeOps : WriteOps Session where
  peek i s := s.heap.recordAt i
  identity i s :=
    match s.stream.serializeObjIds.find? (·.index = i) with
    | some entry => (some entry.id.toNat, s.resolved entry)
    | none =>
      (none, { s with
        stream := { s.stream with
          serializeObjIds := s.entryFor i :: s.stream.serializeObjIds
          nextObjId := s.stream.nextObjId + 1 } })
  load i s := (s.heap.materialize i).map fun (record, heap) => (record, { s with heap })

def readOps : ReadOps Session where
  resolve id s :=
    (s.stream.deserializeObjIds.find? (·.id.toNat = id)).map fun entry => (entry.index, s.resolved entry)
  alloc record s :=
    let (i, heap) := s.heap.takeSlot record
    let s := { s with heap }
    (i, { s with
      stream := { s.stream with
        deserializeObjIds := s.entryFor i :: s.stream.deserializeObjIds
        nextObjId := s.stream.nextObjId + 1 } })
  store i record s := { s with heap := s.heap.storeRecord i record }

def write (s : Session) (writer : Encoder Session) : Option Session :=
  (writer s).map fun (bytes, s) =>
    { s with stream := { s.stream with buf := s.stream.buf ++ bytes, pos := s.stream.pos + bytes.length } }

def read {α : Type} (s : Session) (reader : Decoder Session α) : Option Session :=
  (reader (s.stream.buf.drop s.stream.pos) s).map fun (_, rest, s) =>
    { s with stream := { s.stream with pos := s.stream.buf.length - rest.length } }

end Session

structure Machine where
  heap : StampedHeap := {}
  streams : List (Option ByteStream) := []
  log : List Resolution := []

inductive StreamCall where
  | writeObject (value : Value)
  | writeStruct (structIdx : Nat) (value : Value)
  | read (call : StreamWalk.ReadCall)
  | append (bytes : Bytes)
  | skip (count : Nat)
  | reset

inductive Action where
  | allocate (record : Record)
  | assign (i : Nat) (record : Record)
  | collect (marks : Nat → Bool)
  | reorder (free : List Nat)
  | grow (quantum : Nat)
  | construct (stream : Nat)
  | call (stream : Nat) (call : StreamCall)
  | close (stream : Nat)

section Step
variable (tables : Tables)

def Session.perform (s : Session) : StreamCall → Option Session
  | .writeObject value => s.write (StreamWalk.writeObject Session.writeOps tables value)
  | .writeStruct structIdx value => s.write (StreamWalk.writeStruct Session.writeOps tables structIdx value)
  | .read call => s.read (call.reader Session.readOps tables)
  | .append bytes =>
    some { s with stream := { s.stream with buf := s.stream.buf ++ bytes, pos := s.stream.pos + bytes.length } }
  | .skip count =>
    if s.stream.pos + count ≤ s.stream.buf.length then
      some { s with stream := { s.stream with pos := s.stream.pos + count } }
    else none
  | .reset =>
    some { s with
      heap := { s.heap with clock := s.heap.clock + 1 }
      stream := { s.stream.clearObjIdState s.heap.clock with pos := 0 } }

def step (s : Machine) : Action → Option Machine
  | .allocate record => some { s with heap := (s.heap.takeSlot record).2 }
  | .assign i record => some { s with heap := s.heap.storeRecord i record }
  | .collect marks => some { s with heap := s.heap.sweep marks }
  | .reorder free => if s.heap.free.Perm free then some { s with heap := { s.heap with free } } else none
  | .grow quantum => some { s with heap := s.heap.growBy quantum }
  | .construct stream =>
    let heap := { s.heap with clock := s.heap.clock + 1 }
    let fresh : Option ByteStream := some { session := s.heap.clock }
    match s.streams[stream]? with
    | some none => some { s with heap, streams := s.streams.set stream fresh }
    | some (some _) => none
    | none => if stream = s.streams.length then some { s with heap, streams := s.streams ++ [fresh] } else none
  | .call stream call =>
    match s.streams[stream]? with
    | some (some state) =>
      (Session.perform tables ⟨s.heap, state, s.log⟩ call).map fun t =>
        { heap := t.heap, streams := s.streams.set stream (some t.stream), log := t.log }
    | _ => none
  | .close stream =>
    match s.streams[stream]? with
    | some (some _) => some { s with streams := s.streams.set stream none }
    | _ => none

end Step

def Resolution.Right (r : Resolution) : Prop := r.now = some r.entry.stamp ∧ r.session = r.entry.session

instance (r : Resolution) : Decidable r.Right := inferInstanceAs (Decidable (_ ∧ _))

def IdsDenote (s : Machine) : Prop := ∀ r ∈ s.log, r.Right

def ByteStream.entries (stream : ByteStream) : List Entry := stream.serializeObjIds ++ stream.deserializeObjIds

def Meets (s : Machine) : Action → Prop
  | .collect marks => ∀ stream, some stream ∈ s.streams → ∀ entry ∈ stream.entries, marks entry.index = true
  | _ => True

namespace StampedHeap

structure Sound (h : StampedHeap) : Prop where
  nodup : h.free.Nodup
  listed : ∀ i ∈ h.free, h.slots[i]? = some none

def Keeps (h h' : StampedHeap) : Prop := ∀ i stamp, h.stampAt i = some stamp → h'.stampAt i = some stamp

theorem Keeps.refl (h : StampedHeap) : Keeps h h := fun _ _ held => held

theorem Keeps.trans {h₁ h₂ h₃ : StampedHeap} (first : Keeps h₁ h₂) (second : Keeps h₂ h₃) : Keeps h₁ h₃ :=
  fun i stamp held => second i stamp (first i stamp held)

variable {h : StampedHeap}

theorem stampAt_eq_some {i stamp : Nat} :
    h.stampAt i = some stamp ↔ ∃ cell, h.slots[i]? = some (some cell) ∧ cell.stamp = stamp := by
  simp [stampAt, cellAt, Option.join_eq_some_iff]

theorem takeSlot_spec (sound : h.Sound) (record : Record) :
    (h.takeSlot record).2.Sound ∧ h.Keeps (h.takeSlot record).2 ∧
      (h.takeSlot record).2.stampAt (h.takeSlot record).1 = some h.clock := by
  unfold takeSlot
  split
  · rename_i i rest free
    have empty := sound.listed i (by rw [free]; exact .head _)
    have inside := (List.getElem?_eq_some_iff.mp empty).1
    have nodup := sound.nodup
    rw [free, List.nodup_cons] at nodup
    refine ⟨⟨nodup.2, fun j member => ?_⟩, fun j stamp held => ?_, ?_⟩
    · have apart : i ≠ j := fun same => nodup.1 (same ▸ member)
      rw [List.getElem?_set_ne apart]
      exact sound.listed j (by rw [free]; exact .tail _ member)
    · obtain ⟨cell, at_j, same⟩ := stampAt_eq_some.mp held
      have apart : i ≠ j := by
        rintro rfl
        rw [empty] at at_j
        cases at_j
      exact stampAt_eq_some.mpr ⟨cell, by rw [List.getElem?_set_ne apart, at_j], same⟩
    · exact stampAt_eq_some.mpr ⟨_, List.getElem?_set_self inside, rfl⟩
  · refine ⟨⟨sound.nodup, fun j member => ?_⟩, fun j stamp held => ?_, ?_⟩
    · have empty := sound.listed j member
      rwa [List.getElem?_append_left (List.getElem?_eq_some_iff.mp empty).1]
    · obtain ⟨cell, at_j, same⟩ := stampAt_eq_some.mp held
      exact stampAt_eq_some.mpr ⟨cell, by rwa [List.getElem?_append_left (List.getElem?_eq_some_iff.mp at_j).1], same⟩
    · exact stampAt_eq_some.mpr ⟨_, by rw [List.getElem?_append_right (Nat.le_refl _), Nat.sub_self]; rfl, rfl⟩

theorem storeRecord_spec (sound : h.Sound) (i : Nat) (record : Record) :
    (h.storeRecord i record).Sound ∧ h.Keeps (h.storeRecord i record) := by
  refine ⟨⟨sound.nodup, fun j member => ?_⟩, fun j stamp held => ?_⟩
  · rw [storeRecord, List.getElem?_modify, sound.listed j member]
    split <;> rfl
  · obtain ⟨cell, at_j, same⟩ := stampAt_eq_some.mp held
    refine stampAt_eq_some.mpr ?_
    rw [storeRecord, List.getElem?_modify, at_j]
    split
    · exact ⟨_, rfl, same⟩
    · exact ⟨cell, rfl, same⟩

theorem materialize_spec (sound : h.Sound) {i : Nat} {record : Record} {h' : StampedHeap}
    (made : h.materialize i = some (record, h')) : h'.Sound ∧ h.Keeps h' := by
  unfold materialize at made
  split at made
  · split at made
    · cases made
      obtain ⟨sound', keeps, -⟩ := takeSlot_spec sound _
      exact ⟨sound', keeps⟩
    · cases made
  · cases made
    exact ⟨sound, .refl _⟩
  · cases made

theorem sweep_sound (h : StampedHeap) (marks : Nat → Bool) : (h.sweep marks).Sound := by
  refine ⟨List.nodup_range.filter _, fun i member => ?_⟩
  obtain ⟨inside, empty⟩ := List.mem_filter.mp member
  rw [List.mem_range] at inside
  simp only [decide_eq_true_eq] at empty
  have at_i := List.getElem?_eq_getElem inside
  change (h.slots.mapIdx _)[i]? = some none
  rw [at_i] at empty ⊢
  simpa using empty.2

theorem sweep_keeps {marks : Nat → Bool} {i stamp : Nat} (marked : marks i = true) (held : h.stampAt i = some stamp) :
    (h.sweep marks).stampAt i = some stamp := by
  obtain ⟨cell, at_i, same⟩ := stampAt_eq_some.mp held
  refine stampAt_eq_some.mpr ⟨cell, ?_, same⟩
  rw [sweep, List.getElem?_mapIdx, at_i, Option.map_some, if_pos marked]

theorem growBy_spec (sound : h.Sound) (quantum : Nat) : (h.growBy quantum).Sound ∧ h.Keeps (h.growBy quantum) := by
  refine ⟨⟨?_, fun i member => ?_⟩, fun i stamp held => ?_⟩
  · refine List.nodup_append.mpr ⟨List.nodup_range', sound.nodup, fun a fresh b old same => ?_⟩
    have := (List.getElem?_eq_some_iff.mp (sound.listed b old)).1
    rw [List.mem_range'_1] at fresh
    omega
  · rcases List.mem_append.mp member with fresh | old
    · rw [List.mem_range'_1] at fresh
      rw [growBy, List.getElem?_append_right fresh.1, List.getElem?_replicate, if_pos (by omega)]
    · have empty := sound.listed i old
      rwa [growBy, List.getElem?_append_left (List.getElem?_eq_some_iff.mp empty).1]
  · obtain ⟨cell, at_i, same⟩ := stampAt_eq_some.mp held
    refine stampAt_eq_some.mpr ⟨cell, ?_, same⟩
    rwa [growBy, List.getElem?_append_left (List.getElem?_eq_some_iff.mp at_i).1]

end StampedHeap

def Entry.Current (entry : Entry) (h : StampedHeap) (session : Nat) : Prop :=
  h.stampAt entry.index = some entry.stamp ∧ entry.session = session

def ByteStream.Current (stream : ByteStream) (h : StampedHeap) : Prop :=
  ∀ entry ∈ stream.entries, entry.Current h stream.session

theorem ByteStream.Current.mono {stream : ByteStream} {h h' : StampedHeap} (current : stream.Current h)
    (keeps : h.Keeps h') : stream.Current h' :=
  fun entry member => ⟨keeps _ _ (current entry member).1, (current entry member).2⟩

namespace Session

structure Held (start : StampedHeap) (s : Session) : Prop where
  sound : s.heap.Sound
  keeps : start.Keeps s.heap
  current : s.stream.Current s.heap
  right : ∀ r ∈ s.log, r.Right

variable {start : StampedHeap} {s : Session}

theorem Held.resolved (held : Held start s) {entry : Entry} (member : entry ∈ s.stream.entries) :
    Held start (s.resolved entry) := by
  refine ⟨held.sound, held.keeps, held.current, fun r logged => ?_⟩
  rcases List.mem_append.mp logged with old | new
  · exact held.right r old
  · rw [List.mem_singleton.mp new]
    obtain ⟨here, session⟩ := held.current entry member
    exact ⟨here, session.symm⟩

theorem entryFor_current {i stamp : Nat} (live : s.heap.stampAt i = some stamp) :
    (s.entryFor i).Current s.heap s.stream.session := by
  refine ⟨?_, rfl⟩
  show s.heap.stampAt i = some ((s.heap.stampAt i).getD 0)
  rw [live]
  rfl

theorem Held.heap (held : Held start s) {h : StampedHeap} (sound : h.Sound) (keeps : s.heap.Keeps h) :
    Held start { s with heap := h } :=
  ⟨sound, held.keeps.trans keeps, held.current.mono keeps, held.right⟩

theorem writeOps_keeps (start : StampedHeap) : writeOps.Keeps (Held start) where
  identity i s held known := by
    unfold writeOps
    dsimp only
    split
    · rename_i entry found
      exact held.resolved (List.mem_append_left _ (List.mem_of_find?_eq_some found))
    · have live : ∃ stamp, s.heap.stampAt i = some stamp := by
        obtain ⟨record, here⟩ := Option.isSome_iff_exists.mp known
        obtain ⟨cell, at_i, -⟩ := Option.map_eq_some_iff.mp here
        exact ⟨cell.stamp, by rw [StampedHeap.stampAt, at_i, Option.map_some]⟩
      obtain ⟨stamp, live⟩ := live
      refine ⟨held.sound, held.keeps, fun entry member => ?_, held.right⟩
      rcases List.mem_cons.mp member with rfl | old
      · exact entryFor_current live
      · exact held.current entry old
  load i s record s' held loaded := by
    obtain ⟨⟨record', h⟩, made, same⟩ := Option.map_eq_some_iff.mp loaded
    cases same
    obtain ⟨sound, keeps⟩ := StampedHeap.materialize_spec held.sound made
    exact held.heap sound keeps

theorem readOps_keeps (start : StampedHeap) : readOps.Keeps (Held start) where
  resolve id s i s' held found := by
    obtain ⟨entry, here, same⟩ := Option.map_eq_some_iff.mp found
    cases same
    exact held.resolved (List.mem_append_right _ (List.mem_of_find?_eq_some here))
  alloc record s held := by
    obtain ⟨sound, keeps, live⟩ := StampedHeap.takeSlot_spec held.sound record
    have grown := held.heap sound keeps
    refine ⟨grown.sound, grown.keeps, fun entry member => ?_, grown.right⟩
    rcases List.mem_append.mp member with written | read
    · exact grown.current entry (List.mem_append_left _ written)
    · rcases List.mem_cons.mp read with rfl | old
      · exact entryFor_current (s := { s with heap := (s.heap.takeSlot record).2 }) live
      · exact grown.current entry (List.mem_append_right _ old)
  store i record s held := by
    obtain ⟨sound, keeps⟩ := StampedHeap.storeRecord_spec held.sound i record
    exact held.heap sound keeps

theorem Held.moved (held : Held start s) (buf : Bytes) (pos : Nat) :
    Held start { s with stream := { s.stream with buf, pos } } :=
  ⟨held.sound, held.keeps, held.current, held.right⟩

theorem write_held {writer : Encoder Session} (writes : Writes (Held start) writer) {s' : Session} (held : Held start s)
    (written : s.write writer = some s') : Held start s' := by
  obtain ⟨⟨bytes, t⟩, done, rfl⟩ := Option.map_eq_some_iff.mp written
  exact (writes _ _ _ held done).moved _ _

theorem read_held {α : Type} {reader : Decoder Session α} (reads : Reads (Held start) reader) {s' : Session}
    (held : Held start s) (read : s.read reader = some s') : Held start s' := by
  obtain ⟨⟨value, rest, t⟩, done, rfl⟩ := Option.map_eq_some_iff.mp read
  exact (reads _ _ _ _ _ held done).moved _ _

theorem perform_held {tables : Tables} {call : StreamCall} {s' : Session} (held : Held start s)
    (done : s.perform tables call = some s') : Held start s' := by
  have keeps := writeOps_keeps start
  cases call with
  | writeObject value => exact write_held (.classFields keeps (.field keeps _) value) held done
  | writeStruct structIdx value => exact write_held (.structFields (.field keeps _) _ value) held done
  | read call => exact read_held (.call (readOps_keeps start) call) held done
  | append bytes =>
    cases Option.some.inj done
    exact held.moved _ _
  | skip count =>
    change (if _ then some _ else none) = some s' at done
    obtain ⟨-, done⟩ := Option.ite_none_right_eq_some.mp done
    cases done
    exact held.moved _ _
  | reset =>
    cases Option.some.inj done
    exact ⟨⟨held.sound.nodup, held.sound.listed⟩, fun i stamp live => held.keeps i stamp live,
      (fun _ member => nomatch member), held.right⟩

end Session

structure Settled (s : Machine) : Prop where
  sound : s.heap.Sound
  current : ∀ stream, some stream ∈ s.streams → stream.Current s.heap
  right : IdsDenote s

theorem settled_start : Settled {} where
  sound := ⟨.nil, fun _ member => nomatch member⟩
  current _ member := nomatch member
  right _ member := nomatch member

section Runs
variable {tables : Tables} {s s' : Machine}

theorem Settled.heap (settled : Settled s) {h : StampedHeap} (sound : h.Sound) (keeps : s.heap.Keeps h) :
    Settled { s with heap := h } :=
  ⟨sound, fun stream member => (settled.current stream member).mono keeps, settled.right⟩

theorem Settled.streams (settled : Settled s) {streams : List (Option ByteStream)} (session : Nat)
    (fresh : ∀ stream, some stream ∈ streams → some stream ∈ s.streams ∨ stream = { session }) :
    Settled { s with heap := { s.heap with clock := s.heap.clock + 1 }, streams } := by
  refine ⟨⟨settled.sound.nodup, settled.sound.listed⟩, fun stream member => ?_, settled.right⟩
  rcases fresh stream member with old | rfl
  · exact settled.current stream old
  · exact fun _ member => nomatch member

theorem step_settled (s : Machine) (action : Action) (s' : Machine) (settled : Settled s) (met : Meets s action)
    (taken : step tables s action = some s') : Settled s' := by
  cases action with
  | allocate record =>
    cases Option.some.inj taken
    obtain ⟨sound, keeps, -⟩ := StampedHeap.takeSlot_spec settled.sound record
    exact settled.heap sound keeps
  | assign i record =>
    cases Option.some.inj taken
    obtain ⟨sound, keeps⟩ := StampedHeap.storeRecord_spec settled.sound i record
    exact settled.heap sound keeps
  | collect marks =>
    cases Option.some.inj taken
    refine ⟨StampedHeap.sweep_sound _ _, fun stream member entry inside => ?_, settled.right⟩
    obtain ⟨here, session⟩ := settled.current stream member entry inside
    exact ⟨StampedHeap.sweep_keeps (met stream member entry inside) here, session⟩
  | reorder free =>
    change (if _ then some _ else none) = some s' at taken
    obtain ⟨same, taken⟩ := Option.ite_none_right_eq_some.mp taken
    cases taken
    refine settled.heap ⟨same.nodup_iff.mp settled.sound.nodup, fun i member => ?_⟩ fun _ _ held => held
    exact settled.sound.listed i (same.mem_iff.mpr member)
  | grow quantum =>
    cases Option.some.inj taken
    obtain ⟨sound, keeps⟩ := StampedHeap.growBy_spec settled.sound quantum
    exact settled.heap sound keeps
  | construct stream =>
    simp only [step] at taken
    split at taken
    · cases taken
      refine settled.streams s.heap.clock fun other member => ?_
      rcases List.mem_or_eq_of_mem_set member with old | same
      · exact .inl old
      · exact .inr (Option.some.inj same)
    · cases taken
    · split at taken
      · cases taken
        refine settled.streams s.heap.clock fun other member => ?_
        rcases List.mem_append.mp member with old | new
        · exact .inl old
        · exact .inr (Option.some.inj (List.mem_singleton.mp new))
      · cases taken
  | call stream call =>
    simp only [step] at taken
    split at taken
    · rename_i state here
      obtain ⟨t, done, rfl⟩ := Option.map_eq_some_iff.mp taken
      have before : Session.Held s.heap ⟨s.heap, state, s.log⟩ :=
        ⟨settled.sound, .refl _, settled.current state (List.mem_of_getElem? here), settled.right⟩
      have after := Session.perform_held before done
      refine ⟨after.sound, fun other member => ?_, after.right⟩
      rcases List.mem_or_eq_of_mem_set member with old | same
      · exact (settled.current other old).mono after.keeps
      · cases same
        exact after.current
    · cases taken
  | close stream =>
    simp only [step] at taken
    split at taken
    · cases taken
      refine ⟨settled.sound, fun other member => ?_, settled.right⟩
      rcases List.mem_or_eq_of_mem_set member with old | same
      · exact settled.current other old
      · cases same
    · cases taken

end Runs

/-- While collections keep what the id tables hold, every id that is written or resolved denotes the object that was
entered under it, in the same session of the same stream. -/
theorem ids_denote (tables : Tables) {s : Machine} (run : Run (step tables) Meets {} s) : IdsDenote s :=
  (run.invariant Settled settled_start step_settled).right

def plainTables : Tables where
  structs := []
  classes := [{ name := [65], superClassIdx := none, fields := [] }]
  arrayTypes := []
  structs_distinct := List.nodup_nil
  classes_distinct := List.nodup_singleton _
  arrayTypes_distinct := List.nodup_nil
  plain_elements := Tables.plain_elements_nil

def writtenAgain (marks : Nat → Bool) : List Action :=
  [.construct 0, .allocate (.object 0 []), .call 0 (.writeObject (.ref 1)), .collect marks,
    .allocate (.object 0 []), .call 0 (.writeObject (.ref 1))]

theorem keptObject_denoted : ∃ s, Run (step plainTables) Meets {} s ∧ s.log.length = 1 ∧ IdsDenote s := by
  have taken : ∃ s, (writtenAgain fun _ => true).foldlM (step plainTables) {} = some s ∧ s.log.length = 1 :=
    ⟨_, rfl, rfl⟩
  obtain ⟨s, taken, logged⟩ := taken
  have met : ∀ action ∈ writtenAgain fun _ => true, ∀ s, Meets s action := by
    simp [writtenAgain, Meets]
  have run : Run (step plainTables) Meets {} s := .actions .refl met taken
  exact ⟨s, run, logged, ids_denote plainTables run⟩

theorem reusedIndex_not_denoted :
    ¬ ∀ (tables : Tables) (s : Machine), Run (step tables) (fun _ _ => True) {} s → IdsDenote s := by
  intro claim
  have taken : ∃ s, (writtenAgain fun _ => false).foldlM (step plainTables) {} = some s ∧
      s.log = [⟨⟨1, 1, 1, 0⟩, some 2, 0⟩] := ⟨_, rfl, rfl⟩
  obtain ⟨s, taken, log⟩ := taken
  have right := claim plainTables s (.actions .refl (fun _ _ _ => trivial) taken)
  rw [IdsDenote, log] at right
  exact absurd (right _ (.head _)) (by decide)

end NLang.Vm.StreamSessions
