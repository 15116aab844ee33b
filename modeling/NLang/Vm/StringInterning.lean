import NLang.Vm.StringHeap

/-!
# Interning

Slots are allocated, or free on a shard; a free slot is blank. The weak table and the interned bits describe the
same objects.
-/

namespace NLang.Vm
open NLang.Library

namespace StringHeap

def Allocated (h : StringHeap) (i : Nat) : Prop := 1 ≤ i ∧ i < h.size ∧ i ∉ h.freeIndices

structure Sound (h : StringHeap) : Prop where
  configured : h.shards ≠ []
  sentinel : 1 ≤ h.size
  nodup : h.freeIndices.Nodup
  blank : ∀ i ∈ h.freeIndices, 1 ≤ i ∧ i < h.size ∧ (h.obj i = {} ∨ h.obj i = { form := .dead })
  used : ∀ i, h.Allocated i → (h.obj i).form ≠ .dead
  entry : ∀ content i, h.shortStrTable content = some i →
    h.Allocated i ∧ (h.obj i).interned = true ∧ (h.obj i).str = content
  interned : ∀ i, i < h.size → (h.obj i).interned = true →
    (h.obj i).form = .flat ∧ h.shortStrTable (h.obj i).str = some i
  immortal : ∀ i, i < h.size → (h.obj i).immortal = true → (h.obj i).form = .flat

def Keeps (h h' : StringHeap) : Prop := ∀ i, h.Allocated i → h'.Allocated i ∧ h'.obj i = h.obj i

theorem Keeps.trans {h h' h'' : StringHeap} (first : Keeps h h') (second : Keeps h' h'') : Keeps h h'' := by
  intro i allocated
  obtain ⟨inside, same⟩ := first i allocated
  obtain ⟨inside, same'⟩ := second i inside
  exact ⟨inside, same'.trans same⟩

structure Fresh (h h' : StringHeap) (i : Nat) : Prop where
  sound : Sound h'
  allocated : h'.Allocated i
  isNew : ¬ h.Allocated i
  obj : h'.obj i = {}
  keeps : Keeps h h'
  only : ∀ j, h'.Allocated j → j = i ∨ h.Allocated j
  table : h'.shortStrTable = h.shortStrTable
  cache : h'.constStrCache = h.constStrCache
  empty : h'.emptyStrHandle = h.emptyStrHandle

section Grow
variable {h : StringHeap} {shard : Nat} (quantum : Nat) (sound : Sound h) (inside : shard < h.shards.length)
include inside

theorem mem_grow_freeIndices {i : Nat} : i ∈ (h.growStrShardBlockLocked shard quantum).freeIndices ↔
    h.size ≤ i ∧ i < h.size + quantum ∨ i ∈ h.freeIndices := by
  rw [freeIndices, growStrShardBlockLocked]
  simp only [(ShardStacks.flatten_modify inside (List.range' h.size quantum)).mem_iff, List.mem_append,
    List.mem_range'_1]
  rfl

theorem grow_allocated {i : Nat} : (h.growStrShardBlockLocked shard quantum).Allocated i ↔ h.Allocated i := by
  unfold Allocated
  rw [mem_grow_freeIndices quantum inside]
  simp only [growStrShardBlockLocked]
  constructor
  · rintro ⟨positive, below, used⟩
    exact ⟨positive, by by_contra; exact used (.inl ⟨by omega, by omega⟩), fun free => used (.inr free)⟩
  · rintro ⟨positive, below, used⟩
    exact ⟨positive, by omega, fun either => either.elim (fun block => by omega) used⟩

omit inside in
theorem grow_obj_of_lt {i : Nat} (below : i < h.size) :
    (h.growStrShardBlockLocked shard quantum).obj i = h.obj i := by
  simp only [growStrShardBlockLocked]
  exact if_neg (by omega)

omit inside in
theorem grow_obj_cases {i : Nat} (below : i < h.size + quantum) : i < h.size ∨
    (h.growStrShardBlockLocked shard quantum).obj i = {} := by
  by_cases old : i < h.size
  · exact .inl old
  · exact .inr (if_pos ⟨by omega, below⟩)

include sound

theorem grow_sound : Sound (h.growStrShardBlockLocked shard quantum) where
  configured := by simp [growStrShardBlockLocked, sound.configured]
  sentinel := Nat.le_add_right_of_le sound.sentinel
  nodup := by
    refine (ShardStacks.flatten_modify inside (List.range' h.size quantum)).nodup_iff.mpr
      (List.nodup_append.mpr ⟨List.nodup_range', sound.nodup, ?_⟩)
    rintro i fresh j free rfl
    have below := (sound.blank i free).2.1
    have above := (List.mem_range'_1.mp fresh).1
    omega
  blank := by
    intro i free
    rcases (mem_grow_freeIndices quantum inside).mp free with ⟨above, below⟩ | old
    · exact ⟨Nat.le_trans sound.sentinel above, below, .inl (if_pos ⟨above, below⟩)⟩
    · obtain ⟨positive, below, blank⟩ := sound.blank i old
      rw [grow_obj_of_lt quantum below]
      exact ⟨positive, Nat.lt_add_right quantum below, blank⟩
  used := by
    intro i allocated
    have old := (grow_allocated quantum inside).mp allocated
    rw [grow_obj_of_lt quantum old.2.1]
    exact sound.used i old
  entry := by
    intro content i found
    obtain ⟨allocated, same⟩ := sound.entry content i found
    rw [grow_allocated quantum inside, grow_obj_of_lt quantum allocated.2.1]
    exact ⟨allocated, same⟩
  interned := by
    intro i below isInterned
    rcases grow_obj_cases quantum below with old | fresh
    · rw [grow_obj_of_lt quantum old] at isInterned ⊢
      exact sound.interned i old isInterned
    · rw [fresh] at isInterned
      cases isInterned
  immortal := by
    intro i below isImmortal
    rcases grow_obj_cases quantum below with old | fresh
    · rw [grow_obj_of_lt quantum old] at isImmortal ⊢
      exact sound.immortal i old isImmortal
    · rw [fresh] at isImmortal
      cases isImmortal

end Grow

theorem pop_fresh {h : StringHeap} {shard i : Nat} {rest : List Nat} (sound : Sound h)
    (top : h.shards.getD shard [] = i :: rest) :
    Fresh h (({ h with shards := h.shards.set shard rest } : StringHeap).setObj i {}) i := by
  have popped := ShardStacks.flatten_pop top
  have free : i ∈ h.freeIndices := popped.mem_iff.mpr List.mem_cons_self
  obtain ⟨away, nodup⟩ := List.nodup_cons.mp (popped.nodup_iff.mp sound.nodup)
  obtain ⟨positive, below, blank⟩ := sound.blank i free
  have keeps : Keeps h (({ h with shards := h.shards.set shard rest } : StringHeap).setObj i {}) := by
    rintro j ⟨one, inside, used⟩
    have other : j ≠ i := fun same => used (same ▸ free)
    exact ⟨⟨one, inside, fun listed => used (popped.mem_iff.mpr (List.mem_cons_of_mem i listed))⟩,
      setObj_obj_of_ne _ i {} other⟩
  have only : ∀ j, (({ h with shards := h.shards.set shard rest } : StringHeap).setObj i {}).Allocated j →
      j = i ∨ h.Allocated j := by
    rintro j ⟨one, inside, used⟩
    by_cases same : j = i
    · exact .inl same
    · refine .inr ⟨one, inside, fun listed => ?_⟩
      rcases List.mem_cons.mp (popped.mem_iff.mp listed) with same' | later
      · exact same same'
      · exact used later
  refine
    { sound :=
        { configured := by simpa [setObj] using sound.configured
          sentinel := sound.sentinel
          nodup := nodup
          blank := ?_
          used := ?_
          entry := ?_
          interned := ?_
          immortal := ?_ }
      allocated := ⟨positive, below, away⟩
      isNew := fun allocated => allocated.2.2 free
      obj := setObj_obj_self _ i {}
      keeps := keeps
      only := only
      table := rfl
      cache := rfl
      empty := rfl }
  · intro j listed
    have other : j ≠ i := fun same => away (same ▸ listed)
    rw [setObj_obj_of_ne _ i {} other]
    exact sound.blank j (popped.mem_iff.mpr (List.mem_cons_of_mem i listed))
  · intro j allocated
    rcases only j allocated with rfl | old
    · rw [setObj_obj_self]
      exact fun dead => by cases dead
    · rw [(keeps j old).2]
      exact sound.used j old
  · intro content j found
    obtain ⟨old, same⟩ := sound.entry content j found
    rw [(keeps j old).2]
    exact ⟨(keeps j old).1, same⟩
  · intro j inside isInterned
    by_cases same : j = i
    · rw [same, setObj_obj_self] at isInterned
      cases isInterned
    · rw [setObj_obj_of_ne _ i {} same] at isInterned ⊢
      exact sound.interned j inside isInterned
  · intro j inside isImmortal
    by_cases same : j = i
    · rw [same, setObj_obj_self] at isImmortal
      cases isImmortal
    · rw [setObj_obj_of_ne _ i {} same] at isImmortal ⊢
      exact sound.immortal j inside isImmortal

theorem allocStringObj_fresh {h h' : StringHeap} {shard quantum i : Nat} (sound : Sound h)
    (made : h.allocStringObj shard quantum = some (i, h')) : Fresh h h' i := by
  obtain ⟨⟨j, g⟩, taken, same⟩ := Option.map_eq_some_iff.mp made
  cases same
  unfold takeStringSlot at taken
  by_cases exhausted : h.shards.getD shard [] = []
  · simp only [if_pos exhausted] at taken
    split at taken
    · cases taken
    · rename_i rest top
      cases taken
      have inside : shard < h.shards.length := by
        have bound := ShardStacks.inside_of_top top
        simpa [growStrShardBlockLocked] using bound
      have grown := grow_sound quantum sound inside
      have fresh := pop_fresh grown top
      have older : Keeps h (h.growStrShardBlockLocked shard quantum) := fun k allocated =>
        ⟨(grow_allocated quantum inside).mpr allocated, grow_obj_of_lt quantum allocated.2.1⟩
      exact
        { fresh with
          isNew := fun allocated => fresh.isNew ((grow_allocated quantum inside).mpr allocated)
          keeps := older.trans fresh.keeps
          only := fun k allocated => (fresh.only k allocated).imp_right (grow_allocated quantum inside).mp }
  · simp only [if_neg exhausted] at taken
    split at taken
    · cases taken
    · rename_i rest top
      cases taken
      exact pop_fresh sound top

section Write
variable {h : StringHeap} (sound : Sound h) {i : Nat} (allocated : h.Allocated i)
include sound allocated

theorem Sound.update {obj : StrObj} {table : List UInt8 → Option Nat} (used : obj.form ≠ .dead)
    (immortal : obj.immortal = true → obj.form = .flat)
    (interned : obj.interned = true → obj.form = .flat ∧ table obj.str = some i)
    (forward : ∀ key j, table key = some j →
      j = i ∧ obj.interned = true ∧ obj.str = key ∨ j ≠ i ∧ h.shortStrTable key = some j)
    (backward : ∀ key j, j ≠ i → h.shortStrTable key = some j → table key = some j) :
    Sound (({ h with shortStrTable := table } : StringHeap).setObj i obj) where
  configured := sound.configured
  sentinel := sound.sentinel
  nodup := sound.nodup
  blank := by
    intro j free
    have other : j ≠ i := fun same => allocated.2.2 (same ▸ free)
    rw [setObj_obj_of_ne _ i obj other]
    exact sound.blank j free
  used := by
    intro j old
    by_cases same : j = i
    · rw [same, setObj_obj_self]
      exact used
    · rw [setObj_obj_of_ne _ i obj same]
      exact sound.used j old
  entry := by
    intro key j found
    rcases forward key j found with ⟨rfl, isInterned, content⟩ | ⟨other, old⟩
    · rw [setObj_obj_self]
      exact ⟨allocated, isInterned, content⟩
    · rw [setObj_obj_of_ne _ i obj other]
      exact sound.entry key j old
  interned := by
    intro j below isInterned
    by_cases same : j = i
    · rw [same, setObj_obj_self] at isInterned ⊢
      exact interned isInterned
    · rw [setObj_obj_of_ne _ i obj same] at isInterned ⊢
      obtain ⟨flat, listed⟩ := sound.interned j below isInterned
      exact ⟨flat, backward _ j same listed⟩
  immortal := by
    intro j below isImmortal
    by_cases same : j = i
    · rw [same, setObj_obj_self] at isImmortal ⊢
      exact immortal isImmortal
    · rw [setObj_obj_of_ne _ i obj same] at isImmortal ⊢
      exact sound.immortal j below isImmortal

theorem Sound.write (obj : StrObj) (was : (h.obj i).interned = false) (stays : obj.interned = false)
    (used : obj.form ≠ .dead) (immortal : obj.immortal = true → obj.form = .flat) : Sound (h.setObj i obj) := by
  refine sound.update allocated used immortal (by simp [stays]) ?_ fun _ _ _ found => found
  intro key j found
  refine .inr ⟨?_, found⟩
  rintro rfl
  rw [(sound.entry key j found).2.1] at was
  cases was

theorem Sound.immortalise (flat : (h.obj i).form = .flat) :
    Sound (h.setObj i { h.obj i with immortal := true }) := by
  refine sound.update allocated (sound.used i allocated) (fun _ => flat)
    (sound.interned i allocated.2.1) ?_ fun _ _ _ found => found
  intro key j found
  by_cases same : j = i
  · exact .inl ⟨same, same ▸ (sound.entry key j found).2⟩
  · exact .inr ⟨same, found⟩

theorem Sound.intern {content : List UInt8} (blank : h.obj i = {}) (absent : h.shortStrTable content = none) :
    Sound ((h.setEntry content (some i)).setObj i { h.obj i with interned := true, str := content }) := by
  refine sound.update allocated (sound.used i allocated) (fun _ => by rw [blank])
    (fun _ => ⟨by rw [blank], if_pos rfl⟩) ?_ ?_
  · intro key j found
    by_cases same : key = content
    · rw [if_pos same] at found
      exact .inl ⟨(Option.some.inj found).symm, rfl, same.symm⟩
    · rw [if_neg same] at found
      refine .inr ⟨?_, found⟩
      rintro rfl
      have known := (sound.entry key j found).2.1
      rw [blank] at known
      cases known
  · intro key j _ found
    have other : key ≠ content := by
      rintro rfl
      rw [absent] at found
      cases found
    rw [if_neg other]
    exact found

end Write

theorem Allocated.live {h : StringHeap} {i : Nat} (allocated : h.Allocated i) (sound : Sound h) :
    h.isLiveStringHandle i = true := by
  rw [isLiveStringHandle_iff]
  exact ⟨Int.natCast_pos.mpr allocated.1, allocated.2.1, sound.used i allocated⟩

theorem Sound.internedLookup_eq {h : StringHeap} (sound : Sound h) (content : List UInt8) :
    h.internedLookup content = h.shortStrTable content := by
  unfold internedLookup
  cases found : h.shortStrTable content with
  | none => rfl
  | some i =>
    have live := (sound.entry content i found).1.live sound
    simp [live]

structure Created (h h' : StringHeap) (i : Nat) : Prop where
  sound : Sound h'
  allocated : h'.Allocated i
  keeps : Keeps h h'
  only : ∀ j, h'.Allocated j → j = i ∨ h.Allocated j
  cache : h'.constStrCache = h.constStrCache
  empty : h'.emptyStrHandle = h.emptyStrHandle

section Create
variable {h g h' : StringHeap} {shard quantum i : Nat} {content : List UInt8}

theorem Fresh.stored (fresh : Fresh h g i) {table : List UInt8 → Option Nat} {obj : StrObj}
    (sound : Sound (({ g with shortStrTable := table } : StringHeap).setObj i obj)) :
    Created h (({ g with shortStrTable := table } : StringHeap).setObj i obj) i where
  sound := sound
  allocated := fresh.allocated
  keeps := by
    intro j old
    obtain ⟨inside, same⟩ := fresh.keeps j old
    have other : j ≠ i := fun equal => fresh.isNew (equal ▸ old)
    exact ⟨inside, (setObj_obj_of_ne _ i obj other).trans same⟩
  only := fresh.only
  cache := fresh.cache
  empty := fresh.empty

theorem mintNewString_created (sound : Sound h) (minted : h.mintNewString shard quantum content = some (i, h')) :
    Created h h' i ∧ (h'.obj i).form = .flat ∧ (h'.obj i).str = content := by
  unfold mintNewString at minted
  by_cases long : kShortStringMaxBytes < content.length
  · rw [if_pos long] at minted
    obtain ⟨⟨j, g⟩, made, same⟩ := Option.map_eq_some_iff.mp minted
    cases same
    have fresh := allocStringObj_fresh sound made
    have written := fresh.sound.write fresh.allocated { g.obj i with str := content }
      (by rw [fresh.obj]) (by rw [fresh.obj]) (by rw [fresh.obj]; exact fun dead => nomatch dead)
      (fun _ => by rw [fresh.obj])
    refine ⟨fresh.stored written, ?_, ?_⟩
    · rw [setObj_obj_self, fresh.obj]
    · rw [setObj_obj_self]
  · rw [if_neg long, sound.internedLookup_eq] at minted
    cases found : h.shortStrTable content with
    | some j =>
      rw [found] at minted
      cases minted
      obtain ⟨allocated, isInterned, same⟩ := sound.entry content i found
      refine ⟨⟨sound, allocated, fun j old => ⟨old, rfl⟩, fun j old => .inr old, rfl, rfl⟩, ?_, same⟩
      exact (sound.interned i allocated.2.1 isInterned).1
    | none =>
      rw [found] at minted
      obtain ⟨⟨j, g⟩, made, same⟩ := Option.map_eq_some_iff.mp minted
      cases same
      have fresh := allocStringObj_fresh sound made
      have written := fresh.sound.intern fresh.allocated fresh.obj (fresh.table ▸ found)
      refine ⟨fresh.stored written, ?_, ?_⟩
      · rw [setObj_obj_self, fresh.obj]
      · rw [setObj_obj_self]

theorem allocConsString_created {left right : Int} (sound : Sound h)
    (made : h.allocConsString shard quantum left right = some (i, h')) :
    Created h h' i ∧ ¬ h.Allocated i ∧ (h'.obj i).form = .cons left right := by
  obtain ⟨⟨j, g⟩, taken, same⟩ := Option.map_eq_some_iff.mp made
  cases same
  have fresh := allocStringObj_fresh sound taken
  have written := fresh.sound.write fresh.allocated { g.obj i with form := .cons left right }
    (by rw [fresh.obj]) (by rw [fresh.obj]) (fun dead => nomatch dead) (by rw [fresh.obj]; exact fun no => nomatch no)
  exact ⟨fresh.stored written, fresh.isNew, by rw [setObj_obj_self]⟩

end Create

def Operand (h : StringHeap) (handle : Int) : Prop := handle = 0 ∨ h.Allocated handle.toNat

structure Fixed (h : StringHeap) (i : Nat) (content : List UInt8) : Prop where
  allocated : h.Allocated i
  immortal : (h.obj i).immortal = true
  str : (h.obj i).str = content

structure Formed (h : StringHeap) (stringConstants : List (List UInt8)) : Prop where
  sound : Sound h
  closed : ∀ i left right, h.Allocated i → (h.obj i).form = .cons left right → h.Operand left ∧ h.Operand right
  readable : ∀ i : Nat, h.Allocated i → ∃ content, h.Content i content
  empty : h.Fixed h.emptyStrHandle []
  constants : List.Forall₂ h.Fixed h.constStrCache stringConstants

section Keeps
variable {h h' : StringHeap} {handle : Int} {content : List UInt8}

theorem Operand.keeps (operand : h.Operand handle) (keeps : Keeps h h') : h'.Operand handle :=
  operand.imp_right fun allocated => (keeps _ allocated).1

theorem Fixed.keeps {i : Nat} (fixed : h.Fixed i content) (keeps : Keeps h h') : h'.Fixed i content := by
  obtain ⟨allocated, same⟩ := keeps i fixed.allocated
  exact ⟨allocated, by rw [same]; exact fixed.immortal, by rw [same]; exact fixed.str⟩

theorem isLiveStringHandle_zero (h : StringHeap) : h.isLiveStringHandle 0 = false := by
  rw [← Bool.not_eq_true, isLiveStringHandle_iff]
  exact fun live => Int.lt_irrefl 0 live.1

theorem Operand.live (operand : h.Operand handle) (sound : Sound h) :
    h.isLiveStringHandle handle = true ↔ h.Allocated handle.toNat := by
  constructor
  · intro live
    rcases operand with rfl | allocated
    · rw [isLiveStringHandle_zero] at live
      cases live
    · exact allocated
  · intro allocated
    have positive : handle = (handle.toNat : Int) := by
      have one := allocated.1
      omega
    rw [positive]
    exact allocated.live sound

theorem Fixed.reads {i : Nat} (fixed : h.Fixed i content) (sound : Sound h) : h.Content i content := by
  have flat := sound.immortal i fixed.allocated.2.1 fixed.immortal
  exact fixed.str ▸ .flat (fixed.allocated.live sound) flat

variable {stringConstants : List (List UInt8)} (formed : Formed h stringConstants)
include formed

theorem Formed.content_keeps (sound : Sound h') (keeps : Keeps h h') (operand : h.Operand handle)
    (holds : h.Content handle content) : h'.Content handle content := by
  refine holds.transfer h.Operand ?_ ?_ ?_ operand
  · intro c inside
    rw [Bool.eq_iff_iff, inside.live formed.sound, (inside.keeps keeps).live sound]
    rcases inside with rfl | allocated
    · exact ⟨fun no => absurd no.1 (by simp), fun no => absurd no.1 (by simp)⟩
    · exact iff_of_true (keeps _ allocated).1 allocated
  · intro c inside live
    exact (keeps _ ((inside.live formed.sound).mp live)).2
  · intro c left right inside live node
    exact formed.closed c.toNat left right ((inside.live formed.sound).mp live) node

theorem Formed.created {i : Nat} (created : Created h h' i)
    (closed : ∀ left right, (h'.obj i).form = .cons left right → h.Operand left ∧ h.Operand right)
    (readable : ∃ content, h'.Content i content) : Formed h' stringConstants where
  sound := created.sound
  closed := by
    intro j left right allocated node
    have operands : h.Operand left ∧ h.Operand right := by
      rcases created.only j allocated with rfl | old
      · exact closed left right node
      · rw [(created.keeps j old).2] at node
        exact formed.closed j left right old node
    exact ⟨operands.1.keeps created.keeps, operands.2.keeps created.keeps⟩
  readable := by
    intro j allocated
    rcases created.only j allocated with rfl | old
    · exact readable
    · obtain ⟨content, holds⟩ := formed.readable j old
      exact ⟨content, formed.content_keeps created.sound created.keeps (.inr old) holds⟩
  empty := by
    rw [created.empty]
    exact formed.empty.keeps created.keeps
  constants := by
    rw [created.cache]
    exact formed.constants.imp fun _ _ fixed => fixed.keeps created.keeps

end Keeps

theorem Formed.mint {h h' : StringHeap} {stringConstants : List (List UInt8)} {shard quantum i : Nat}
    {content : List UInt8} (formed : Formed h stringConstants)
    (minted : h.mintNewString shard quantum content = some (i, h')) :
    Formed h' stringConstants ∧ Created h h' i ∧ h'.Content i content := by
  obtain ⟨created, flat, str⟩ := mintNewString_created formed.sound minted
  have holds : h'.Content i content := str ▸ .flat (created.allocated.live created.sound) flat
  refine ⟨formed.created created ?_ ⟨content, holds⟩, created, holds⟩
  intro left right node
  rw [flat] at node
  cases node

theorem Formed.cons {h h' : StringHeap} {stringConstants : List (List UInt8)} {shard quantum i : Nat}
    {left right : Int} {x y : List UInt8} (formed : Formed h stringConstants) (leftOperand : h.Operand left)
    (rightOperand : h.Operand right) (first : h.Content left x) (second : h.Content right y)
    (made : h.allocConsString shard quantum left right = some (i, h')) :
    Formed h' stringConstants ∧ Created h h' i ∧ h'.Content i (x ++ y) := by
  obtain ⟨created, isNew, node⟩ := allocConsString_created formed.sound made
  have holds : h'.Content i (x ++ y) := .cons (created.allocated.live created.sound) node
    (formed.content_keeps created.sound created.keeps leftOperand first)
    (formed.content_keeps created.sound created.keeps rightOperand second)
  refine ⟨formed.created created ?_ ⟨_, holds⟩, created, holds⟩
  intro l r other
  rw [node] at other
  cases other
  exact ⟨leftOperand, rightOperand⟩

structure Flattened (h h' : StringHeap) : Prop where
  size : h'.size = h.size
  free : h'.freeIndices = h.freeIndices
  content : ∀ handle content, h'.Content handle content ↔ h.Content handle content

theorem Flattened.allocated {h h' : StringHeap} (flattened : Flattened h h') {i : Nat} :
    h'.Allocated i ↔ h.Allocated i := by
  rw [Allocated, Allocated, flattened.size, flattened.free]

theorem Flattened.operand {h h' : StringHeap} (flattened : Flattened h h') {handle : Int} :
    h'.Operand handle ↔ h.Operand handle := by
  rw [Operand, Operand, flattened.allocated]

theorem Flattened.trans {h h' h'' : StringHeap} (first : Flattened h h') (second : Flattened h' h'') :
    Flattened h h'' where
  size := second.size.trans first.size
  free := second.free.trans first.free
  content handle content := (second.content handle content).trans (first.content handle content)

section Flatten
variable {h : StringHeap} {handle : Int} {content : List UInt8} {left right : Int}
variable (live : h.isLiveStringHandle handle = true) (node : (h.obj handle.toNat).form = .cons left right)
include live node

theorem flattened_setObj (holds : h.Content handle content) :
    Flattened h (h.setObj handle.toNat { h.obj handle.toNat with form := .flat, str := content }) := by
  have alive : ∀ c, (h.setObj handle.toNat { h.obj handle.toNat with form := .flat, str := content }).isLiveStringHandle c =
      h.isLiveStringHandle c := by
    intro c
    rw [Bool.eq_iff_iff, isLiveStringHandle_iff, isLiveStringHandle_iff]
    by_cases same : c.toNat = handle.toNat
    · rw [same, setObj_obj_self, node]
      simp
    · rw [setObj_obj_of_ne _ _ _ same]
      rfl
  -- both directions go node by node; the rewritten node has one content before and one after
  have handleOf : ∀ c, h.isLiveStringHandle c = true → c.toNat = handle.toNat → c = handle := by
    intro c isLive same
    have positive := (h.isLiveStringHandle_iff.mp isLive).1
    have positive' := (h.isLiveStringHandle_iff.mp live).1
    omega
  refine ⟨rfl, rfl, fun c x => ⟨fun after => ?_, fun before => ?_⟩⟩
  · induction after with
    | dead dead => exact .dead ((alive _).symm.trans dead)
    | @flat c isLive flat =>
      rw [alive] at isLive
      by_cases same : c.toNat = handle.toNat
      · rw [same, setObj_obj_self, handleOf c isLive same]
        exact holds
      · rw [setObj_obj_of_ne _ _ _ same] at flat ⊢
        exact .flat isLive flat
    | @cons c l r x y isLive other _ _ ihLeft ihRight =>
      rw [alive] at isLive
      by_cases same : c.toNat = handle.toNat
      · rw [same, setObj_obj_self] at other
        cases other
      · rw [setObj_obj_of_ne _ _ _ same] at other
        exact .cons isLive other ihLeft ihRight
  · have self : (h.setObj handle.toNat { h.obj handle.toNat with form := .flat, str := content }).Content handle
        content := by
      have flat := Content.flat (h := h.setObj handle.toNat
        { h.obj handle.toNat with form := .flat, str := content }) ((alive handle).trans live) (by rw [setObj_obj_self])
      rwa [setObj_obj_self] at flat
    induction before with
    | dead dead => exact .dead ((alive _).trans dead)
    | @flat c isLive flat =>
      have other : c.toNat ≠ handle.toNat := by
        intro same
        rw [same, node] at flat
        cases flat
      have kept := setObj_obj_of_ne h handle.toNat { h.obj handle.toNat with form := .flat, str := content } other
      rw [← kept]
      exact .flat ((alive c).trans isLive) (kept ▸ flat)
    | @cons c l r x y isLive other first second ihLeft ihRight =>
      by_cases same : c.toNat = handle.toNat
      · have whole := handleOf c isLive same
        subst whole
        rw [Content.unique (.cons isLive other first second) holds]
        exact self
      · refine .cons ((alive c).trans isLive) ?_ ihLeft ihRight
        rw [setObj_obj_of_ne _ _ _ same]
        exact other

end Flatten

section StrVal
variable {h h' : StringHeap} {stringConstants : List (List UInt8)} {fuel : Nat} {handle : Int}
  {content : List UInt8} (formed : Formed h stringConstants)
include formed

theorem Formed.strVal (read : h.strVal fuel handle = some (content, h')) :
    Formed h' stringConstants ∧ Flattened h h' ∧ h.Content handle content ∧
      ∀ c, h'.isInternedString c = h.isInternedString c := by
  have stays : Flattened h h := ⟨rfl, rfl, fun _ _ => Iff.rfl⟩
  unfold StringHeap.strVal at read
  by_cases live : h.isLiveStringHandle handle = true
  · rw [if_pos live] at read
    cases form : (h.obj handle.toNat).form with
    | flat =>
      rw [form] at read
      cases read
      exact ⟨formed, stays, .flat live form, fun _ => rfl⟩
    | dead =>
      have alive := (h.isLiveStringHandle_iff.mp live).2.2
      contradiction
    | cons left right =>
      rw [form] at read
      obtain ⟨flat, walked, same⟩ := Option.map_eq_some_iff.mp read
      cases same
      have holds := flattenInto_iff.mpr ⟨fuel, walked⟩
      have flattened := flattened_setObj live form holds
      obtain ⟨positive, below, -⟩ := h.isLiveStringHandle_iff.mp live
      have allocated : h.Allocated handle.toNat := by
        refine ⟨by omega, below, fun free => ?_⟩
        rcases (formed.sound.blank _ free).2.2 with blank | blank
        · rw [blank] at form
          cases form
        · rw [blank] at form
          cases form
      have notInterned : (h.obj handle.toNat).interned = false := by
        by_contra isInterned
        rw [(formed.sound.interned _ below (Bool.not_eq_false _ ▸ isInterned)).1] at form
        cases form
      have notImmortal : (h.obj handle.toNat).immortal = false := by
        by_contra isImmortal
        rw [formed.sound.immortal _ below (Bool.not_eq_false _ ▸ isImmortal)] at form
        cases form
      have fixed : ∀ i str, h.Fixed i str →
          (h.setObj handle.toNat { h.obj handle.toNat with form := .flat, str := content }).Fixed i str := by
        intro i str fixed
        have other : i ≠ handle.toNat := by
          rintro rfl
          rw [fixed.immortal] at notImmortal
          cases notImmortal
        refine ⟨fixed.allocated, ?_, ?_⟩
        · rw [setObj_obj_of_ne _ _ _ other]
          exact fixed.immortal
        · rw [setObj_obj_of_ne _ _ _ other]
          exact fixed.str
      refine ⟨⟨?_, ?_, ?_, fixed _ _ formed.empty, formed.constants.imp fixed⟩, flattened, holds, ?_⟩
      · exact formed.sound.write allocated _ notInterned notInterned (fun dead => nomatch dead) fun _ => rfl
      · intro i l r inside other
        by_cases same : i = handle.toNat
        · rw [same, setObj_obj_self] at other
          cases other
        · rw [setObj_obj_of_ne _ _ _ same] at other
          exact formed.closed i l r inside other
      · intro i inside
        obtain ⟨str, held⟩ := formed.readable i inside
        exact ⟨str, (flattened.content i str).mpr held⟩
      · intro c
        unfold isInternedString
        by_cases same : c.toNat = handle.toNat
        · rw [same, setObj_obj_self, notInterned, Bool.and_false, Bool.and_false]
        · rw [setObj_obj_of_ne _ _ _ same]
          congr 1
          rw [Bool.eq_iff_iff, isLiveStringHandle_iff, isLiveStringHandle_iff, setObj_obj_of_ne _ _ _ same]
          rfl
  · rw [if_neg live] at read
    cases read
    rw [formed.empty.str]
    exact ⟨formed, stays, .dead (Bool.not_eq_true _ ▸ live), fun _ => rfl⟩

theorem Formed.strVal_enough (holds : h.Content handle content) :
    ∃ n h', ∀ fuel, n ≤ fuel → h.strVal fuel handle = some (content, h') := by
  obtain ⟨n, walk⟩ := holds.enough
  unfold StringHeap.strVal
  by_cases live : h.isLiveStringHandle handle = true
  · simp only [if_pos live]
    cases form : (h.obj handle.toNat).form with
    | flat => exact ⟨n, h, fun fuel _ => by rw [holds.of_flat live form]⟩
    | dead =>
      have alive := (h.isLiveStringHandle_iff.mp live).2.2
      contradiction
    | cons left right => exact ⟨n, _, fun fuel enough => by rw [walk fuel enough]; rfl⟩
  · simp only [if_neg live, formed.empty.str, holds.of_dead (Bool.not_eq_true _ ▸ live)]
    exact ⟨n, h, fun _ _ => rfl⟩

end StrVal

section Equal
variable {h h' : StringHeap} {stringConstants : List (List UInt8)} {hA hB : Int} {x y : List UInt8}
variable (formed : Formed h stringConstants)
include formed

theorem Formed.interned_unique (internedA : h.isInternedString hA = true) (internedB : h.isInternedString hB = true)
    (first : h.Content hA x) (second : h.Content hB y) : hA = hB ↔ x = y := by
  have entry : ∀ c z, h.isInternedString c = true → h.Content c z → 0 < c ∧ h.shortStrTable z = some c.toNat := by
    intro c z isInterned content
    obtain ⟨live, bit⟩ := Bool.and_eq_true_iff.mp isInterned
    obtain ⟨positive, below, -⟩ := h.isLiveStringHandle_iff.mp live
    obtain ⟨flat, listed⟩ := formed.sound.interned c.toNat below bit
    rw [content.of_flat live flat]
    exact ⟨positive, listed⟩
  obtain ⟨positiveA, listedA⟩ := entry hA x internedA first
  obtain ⟨positiveB, listedB⟩ := entry hB y internedB second
  constructor
  · rintro rfl
    exact first.unique second
  · rintro rfl
    rw [listedA, Option.some.injEq] at listedB
    omega

theorem Formed.stringsEqual {fuel : Nat} {result : Bool} (compared : h.stringsEqual fuel hA hB = some (result, h')) :
    ∃ x y, h.Content hA x ∧ h.Content hB y ∧ result = decide (x = y) ∧ Formed h' stringConstants ∧ Flattened h h' := by
  unfold StringHeap.stringsEqual at compared
  by_cases both : (h.isInternedString hA && h.isInternedString hB) = true
  · rw [if_pos both] at compared
    cases compared
    obtain ⟨internedA, internedB⟩ := Bool.and_eq_true_iff.mp both
    have readable : ∀ c, h.isInternedString c = true → ∃ z, h.Content c z := by
      intro c isInterned
      obtain ⟨live, bit⟩ := Bool.and_eq_true_iff.mp isInterned
      exact ⟨_, .flat live (formed.sound.interned c.toNat (h.isLiveStringHandle_iff.mp live).2.1 bit).1⟩
    obtain ⟨x, first⟩ := readable hA internedA
    obtain ⟨y, second⟩ := readable hB internedB
    refine ⟨x, y, first, second, ?_, formed, rfl, rfl, fun _ _ => Iff.rfl⟩
    rw [decide_eq_decide]
    exact formed.interned_unique internedA internedB first second
  · rw [if_neg both] at compared
    obtain ⟨⟨x, g⟩, readA, rest⟩ := Option.bind_eq_some_iff.mp compared
    obtain ⟨⟨y, g'⟩, readB, same⟩ := Option.bind_eq_some_iff.mp rest
    cases same
    obtain ⟨formedA, flattenedA, first, -⟩ := formed.strVal readA
    obtain ⟨formedB, flattenedB, second, -⟩ := formedA.strVal readB
    exact ⟨x, y, first, (flattenedA.content hB y).mp second, rfl, formedB, flattenedA.trans flattenedB⟩

theorem Formed.stringsEqual_enough (first : h.Content hA x) (second : h.Content hB y) :
    ∃ n h', ∀ fuel, n ≤ fuel → h.stringsEqual fuel hA hB = some (decide (x = y), h') := by
  unfold StringHeap.stringsEqual
  by_cases both : (h.isInternedString hA && h.isInternedString hB) = true
  · obtain ⟨internedA, internedB⟩ := Bool.and_eq_true_iff.mp both
    refine ⟨0, h, fun fuel _ => ?_⟩
    rw [if_pos both, decide_eq_decide.mpr (formed.interned_unique internedA internedB first second)]
  · obtain ⟨n, g, readA⟩ := formed.strVal_enough first
    obtain ⟨formedA, flattenedA, -, -⟩ := formed.strVal (readA n (Nat.le_refl n))
    obtain ⟨m, g', readB⟩ := formedA.strVal_enough ((flattenedA.content hB y).mpr second)
    refine ⟨max n m, g', fun fuel enough => ?_⟩
    have enoughA : n ≤ fuel := by omega
    have enoughB : m ≤ fuel := by omega
    rw [if_neg both, readA fuel enoughA]
    change (g.strVal fuel hB).bind _ = _
    rw [readB fuel enoughB]
    rfl

end Equal

end StringHeap

end NLang.Vm
