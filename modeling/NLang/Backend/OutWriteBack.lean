import NLang.Backend.OutArguments

/-!
# The write-back of out arguments

What the code of a call and the return of its callee leave in the frame of the caller.
-/

namespace NLang.Backend.OutArguments
open NLang.Library NLang.Library.Runs NLang.Vm.CallFrames

section Code
variable {fields : UInt64 → Nat → Option UInt64}

def Instr.target : Instr → Option Nat
  | .varLocal _ => none
  | .assign slot => some slot
  | .loadField slot _ => some slot

theorem execInstr_keeps {s s' : List UInt64 × UInt64} {instr : Instr} (done : execInstr fields s instr = some s') :
    s'.1.length = s.1.length ∧ ∀ cell, instr.target ≠ some cell → s'.1[cell]? = s.1[cell]? := by
  cases instr with
  | varLocal slot =>
    obtain ⟨value, -, rfl⟩ := Option.map_eq_some_iff.mp done
    exact ⟨rfl, fun _ _ => rfl⟩
  | assign slot =>
    simp only [execInstr] at done
    split at done
    · cases done
      exact ⟨List.length_set, fun cell apart => List.getElem?_set_ne fun same => apart (congrArg some same)⟩
    · cases done
  | loadField slot fieldOff =>
    obtain ⟨value, -, rfl⟩ := Option.map_eq_some_iff.mp done
    exact ⟨List.length_set, fun cell apart => List.getElem?_set_ne fun same => apart (congrArg some same)⟩

theorem exec_keeps {code : List Instr} {s s' : List UInt64 × UInt64} (done : exec fields code s = some s') :
    s'.1.length = s.1.length ∧ ∀ cell, (∀ instr ∈ code, instr.target ≠ some cell) → s'.1[cell]? = s.1[cell]? := by
  induction code generalizing s with
  | nil =>
    cases done
    exact ⟨rfl, fun _ _ => rfl⟩
  | cons instr rest ih =>
    obtain ⟨middle, first, later⟩ := Option.bind_eq_some_iff.mp done
    obtain ⟨size, kept⟩ := execInstr_keeps first
    obtain ⟨sizeLater, keptLater⟩ := ih later
    refine ⟨sizeLater.trans size, fun cell apart => ?_⟩
    rw [keptLater cell fun other member => apart other (List.mem_cons_of_mem _ member)]
    exact kept cell (apart instr List.mem_cons_self)

theorem mem_copyCells {source target count : Nat} {instr : Instr} {cell : Nat}
    (member : instr ∈ copyCells source target count) (writes : instr.target = some cell) :
    ∃ index < count, cell = slotAt (target + index) := by
  obtain ⟨index, lt, here⟩ := List.mem_flatMap.mp member
  rcases List.mem_pair.mp here with rfl | rfl
  · cases writes
  · exact ⟨index, List.mem_range.mp lt, (Option.some.inj writes).symm⟩

theorem mem_load {calleeSlot cell : Nat} {handle : Handle} {instr : Instr} (member : instr ∈ handle.load calleeSlot)
    (writes : instr.target = some cell) : cell = slotAt calleeSlot := by
  cases handle with
  | parked => cases member
  | «local» source =>
    rcases List.mem_pair.mp member with rfl | rfl
    · cases writes
    · exact (Option.some.inj writes).symm
  | thisField this fieldOff =>
    simp only [Handle.load, List.mem_cons, List.not_mem_nil, or_false] at member
    rcases member with rfl | rfl | rfl
    · cases writes
    · exact (Option.some.inj writes).symm
    · exact (Option.some.inj writes).symm

theorem exec_move {source target : Nat} {rest : List Instr} {locals : List UInt64} {pResult : UInt64}
    (inside : source < locals.length) (room : target < locals.length) :
    exec fields (.varLocal source :: .assign target :: rest) (locals, pResult) =
      exec fields rest (locals.set target locals[source], locals[source]) := by
  have loaded : execInstr fields (locals, pResult) (.varLocal source) = some (locals, locals[source]) := by
    simp only [execInstr, List.getElem?_eq_getElem inside, Option.map_some]
  have stored : execInstr fields (locals, locals[source]) (.assign target) =
      some (locals.set target locals[source], locals[source]) := if_pos room
  unfold exec
  rw [List.foldlM_cons, loaded]
  change (execInstr fields (locals, locals[source]) (.assign target)).bind _ = _
  rw [stored]
  rfl

def Instr.slot : Instr → Nat
  | .varLocal slot => slot
  | .assign slot => slot
  | .loadField slot _ => slot

theorem exec_total {code : List Instr} {s : List UInt64 × UInt64} (inside : ∀ instr ∈ code, instr.slot < s.1.length) :
    ∃ s', exec (fun _ _ => some 0) code s = some s' := by
  induction code generalizing s with
  | nil => exact ⟨s, rfl⟩
  | cons instr rest ih =>
    have first : ∃ middle, execInstr (fun _ _ => some 0) s instr = some middle := by
      cases instr with
      | varLocal slot =>
        have here : slot < s.1.length := inside _ List.mem_cons_self
        exact ⟨(s.1, s.1[slot]), by simp only [execInstr, List.getElem?_eq_getElem here, Option.map_some]⟩
      | assign slot =>
        have here : slot < s.1.length := inside _ List.mem_cons_self
        exact ⟨_, if_pos here⟩
      | loadField slot fieldOff =>
        have here : slot < s.1.length := inside _ List.mem_cons_self
        exact ⟨(s.1.set slot 0, s.2), by
          simp only [execInstr, List.getElem?_eq_getElem here, Option.bind_some, Option.map_some]⟩
    obtain ⟨middle, done⟩ := first
    obtain ⟨s', later⟩ := @ih middle fun other member =>
      (execInstr_keeps done).1.symm ▸ inside other (List.mem_cons_of_mem _ member)
    refine ⟨s', ?_⟩
    unfold exec
    rw [List.foldlM_cons, done]
    exact later

theorem exec_spills {callParamBase : Nat} {spills : List OutSpill} (locals : List UInt64) (pResult : UInt64)
    (sources : ∀ spill ∈ spills, slotAt (callParamBase + spill.slotIdx) < locals.length)
    (targets : ∀ spill ∈ spills, slotAt spill.localOffset < locals.length)
    (apart : ∀ spill ∈ spills, ∀ other ∈ spills, slotAt spill.localOffset ≠ slotAt (callParamBase + other.slotIdx)) :
    ∃ after, exec fields (emitOutSpills callParamBase spills) (locals, pResult) = some after ∧ ∀ cell,
      ((∀ spill ∈ spills, slotAt spill.localOffset ≠ cell) ∧ after.1[cell]? = locals[cell]?) ∨
        ∃ spill ∈ spills, slotAt spill.localOffset = cell ∧
          after.1[cell]? = locals[slotAt (callParamBase + spill.slotIdx)]? := by
  induction spills generalizing locals pResult with
  | nil => exact ⟨_, rfl, fun cell => .inl ⟨fun _ member => absurd member List.not_mem_nil, rfl⟩⟩
  | cons spill rest ih =>
    have source := sources spill List.mem_cons_self
    have target := targets spill List.mem_cons_self
    -- the argument area is not among the targets
    have kept : ∀ other ∈ spill :: rest,
        (locals.set (slotAt spill.localOffset) locals[slotAt (callParamBase + spill.slotIdx)])[
          slotAt (callParamBase + other.slotIdx)]? = locals[slotAt (callParamBase + other.slotIdx)]? :=
      fun other member => List.getElem?_set_ne (apart spill List.mem_cons_self other member)
    obtain ⟨after, done, cells⟩ := ih
      (locals.set (slotAt spill.localOffset) locals[slotAt (callParamBase + spill.slotIdx)])
      locals[slotAt (callParamBase + spill.slotIdx)]
      (fun other member => List.length_set.symm ▸ sources other (List.mem_cons_of_mem _ member))
      (fun other member => List.length_set.symm ▸ targets other (List.mem_cons_of_mem _ member))
      (fun one oneMember other member =>
        apart one (List.mem_cons_of_mem _ oneMember) other (List.mem_cons_of_mem _ member))
    refine ⟨after, ?_, fun cell => ?_⟩
    · simp only [emitOutSpills, List.flatMap_cons, List.cons_append, List.nil_append]
      rw [exec_move source target]
      exact done
    · rcases cells cell with ⟨untouched, same⟩ | ⟨other, member, here, value⟩
      · by_cases own : slotAt spill.localOffset = cell
        · refine .inr ⟨spill, List.mem_cons_self, own, ?_⟩
          rw [same, ← own, List.getElem?_set_self target, List.getElem?_eq_getElem source]
        · refine .inl ⟨fun one member => (List.mem_cons.mp member).elim (fun same => same ▸ own) (untouched one), ?_⟩
          rw [same, List.getElem?_set_ne own]
      · exact .inr ⟨other, List.mem_cons_of_mem _ member, here, value.trans (kept other (List.mem_cons_of_mem _ member))⟩

end Code

theorem slotAt_of_lt {position : Nat} (lt : position < 8192) : slotAt position = position := Nat.mod_eq_of_lt lt

theorem Execution.caller_kept {site : CallSite} {code : Code} (e : Execution site code) :
    e.rest = { e.caller with localsBuf := e.staged.1 } :: e.below ∧ SameCall e.called e.final := by
  obtain ⟨frame, stack, same⟩ := @runs_of_run e.called ({ e.caller with localsBuf := e.staged.1 } :: e.below)
    (e.final :: e.rest) e.runs (congrArg (· + 1) e.ends)
  obtain ⟨rfl, rest⟩ := List.cons.inj stack
  exact ⟨rest, same⟩

namespace CallSite
variable {site : CallSite} {code : Code}

structure Entered (site : CallSite) (outMask : BitVec 32) (receiver : Option UInt64) (paramCount : Nat)
    (called : CallFrame) : Prop where
  outMask : called.outMask = outMask
  callParamBase : called.callParamBase = slotAt site.callParamBase
  size : paramCount ≤ called.localsBuf.length
  shift : ∀ index, index + site.form.slotBase + called.outShift = site.form.paramSlot receiver index

theorem pushFrameCore_entered {callee : CompiledFunction} {callParamBase outShift : Nat} {outMask : BitVec 32}
    {boundThisIdx : Option UInt64} {caller called : CallFrame} {below : List CallFrame}
    (pushed : pushFrameCore callee callParamBase outMask outShift boundThisIdx (caller :: below) =
      some (called :: caller :: below)) :
    called.outMask = outMask ∧ called.callParamBase = callParamBase ∧ called.outShift = outShift ∧
      callee.paramCount ≤ called.localsBuf.length := by
  simp only [pushFrameCore] at pushed
  split at pushed
  · cases pushed
  · obtain ⟨locals, staged, same⟩ := Option.map_eq_some_iff.mp pushed
    cases same
    refine ⟨rfl, rfl, rfl, ?_⟩
    simp only [stageFrameParams] at staged
    split at staged
    · cases staged
    · split at staged
      · split at staged
        · cases staged
        · obtain ⟨args, copied, rfl⟩ := Option.map_eq_some_iff.mp staged
          simp only [argumentCells] at copied
          split at copied
          · cases copied
            simp
            omega
          · cases copied
      · obtain ⟨args, copied, rfl⟩ := Option.map_eq_some_iff.mp staged
        simp only [argumentCells] at copied
        split at copied
        · cases copied
          simp
          omega
        · cases copied

theorem enter_entered {outMask : BitVec 32} {callee : CompiledFunction} {receiver : Option UInt64}
    {caller called : CallFrame} {below : List CallFrame}
    (entered : site.enter outMask callee receiver (caller :: below) = some (called :: caller :: below)) :
    site.Entered outMask receiver callee.paramCount called := by
  unfold enter at entered
  cases form : site.form with
  | direct =>
    rw [form] at entered
    obtain ⟨mask, base, shift, size⟩ := pushFrameCore_entered entered
    exact ⟨mask, base, size, fun index => by rw [shift, form]; rfl⟩
  | method =>
    rw [form] at entered
    obtain ⟨mask, base, shift, size⟩ := pushFrameCore_entered entered
    exact ⟨mask, base, size, fun index => by rw [shift, form]; rfl⟩
  | delegate =>
    cases receiver with
    | none =>
      rw [form] at entered
      obtain ⟨mask, base, shift, size⟩ := pushFrameCore_entered entered
      exact ⟨mask, base, size, fun index => by rw [shift, form]; rfl⟩
    | some thisIdx =>
      rw [form] at entered
      obtain ⟨mask, base, shift, size⟩ := pushFrameCore_entered entered
      exact ⟨mask, base, size, fun index => by rw [shift, form]; rfl⟩

structure Emits (site : CallSite) (code : Code) (spills : List OutSpill) : Prop where
  recorded : (site.OverCeiling ∧ spills = []) ∨
    (¬ site.OverCeiling ∧ recordOutSpills site.resolveBareIdentifier site.form.slotBase site.bindings = .ok spills)
  outMask : buildOutMask spills = .ok code.outMask
  spills : code.spills = emitOutSpills site.callParamBase spills
  stage : code.stage = [] ∨ code.stage =
    copyCells site.claimBase site.callParamBase site.slotCount ++ site.handle.load site.calleeSlot

theorem emit_emits (emitted : site.emit = .ok code) : ∃ spills, site.Emits code spills := by
  unfold emit at emitted
  split at emitted
  · rename_i overCeiling
    cases emitted
    exact ⟨[], .inl ⟨overCeiling, rfl⟩, rfl, rfl, .inl rfl⟩
  · rename_i within
    obtain ⟨spills, recorded, built⟩ := except_bind_ok.mp emitted
    obtain ⟨outMask, masked, rfl⟩ := except_map_ok.mp built
    exact ⟨spills, .inr ⟨within, recorded⟩, masked, rfl, .inr rfl⟩

variable {spills : List OutSpill}

theorem Emits.mem (emits : site.Emits code spills) {spill : OutSpill} (member : spill ∈ spills) :
    ¬ site.OverCeiling ∧ ∃ index binding, site.bindings[index]? = some binding ∧
      binding.spillsTo site.resolveBareIdentifier spill.localOffset ∧ spill.slotIdx = site.form.slotBase + index := by
  obtain ⟨-, rfl⟩ | ⟨within, recorded⟩ := emits.recorded
  · cases member
  · exact ⟨within, (mem_recordOutSpills recorded spill).mp member⟩

theorem Emits.outArgument (emits : site.Emits code spills) {spill : OutSpill} (member : spill ∈ spills) :
    ∃ index ident, site.OutArgument index ident ∧ site.resolveBareIdentifier ident = some spill.localOffset ∧
      spill.slotIdx = site.form.slotBase + index := by
  obtain ⟨-, index, binding, found, ⟨out, target⟩, slot⟩ := emits.mem member
  obtain ⟨formal, ident, given⟩ := site.agrees binding (List.mem_of_getElem? found) out
  rw [given] at target
  exact ⟨index, ident, ⟨binding, found, formal, given⟩, target, slot⟩

theorem OutArgument.lt {index ident : Nat} (out : site.OutArgument index ident) : index < site.bindings.length := by
  obtain ⟨binding, found, -⟩ := out
  exact (List.getElem?_eq_some_iff.mp found).1

theorem OutArgument.local {index ident : Nat} (out : site.OutArgument index ident) : ident ∈ site.locals := by
  obtain ⟨binding, found, -, given⟩ := out
  exact site.known binding (List.mem_of_getElem? found) ident given

theorem Emits.slot_lt (emits : site.Emits code spills) {spill : OutSpill} (member : spill ∈ spills) :
    spill.slotIdx < site.slotCount := by
  obtain ⟨index, ident, out, -, slot⟩ := emits.outArgument member
  have lt := out.lt
  unfold slotCount
  omega

theorem Emits.local (emits : site.Emits code spills) {spill : OutSpill} (member : spill ∈ spills) :
    spill.localOffset ∈ site.locals := by
  obtain ⟨index, ident, -, target, -⟩ := emits.outArgument member
  exact site.resolved ident spill.localOffset target

theorem Emits.stage_keeps (emits : site.Emits code spills) (fits : site.frameSlots < 8192) (e : Execution site code) :
    e.staged.1.length = site.frameSlots ∧ ∀ ident ∈ site.locals, e.staged.1[ident]? = e.caller.localsBuf[ident]? := by
  obtain ⟨size, kept⟩ := exec_keeps e.stages
  refine ⟨size.trans (e.size.trans (slotAt_of_lt fits)), fun ident member => kept ident fun instr there writes => ?_⟩
  obtain ⟨inside, apart, -, disjoint⟩ := site.separate ident member
  rcases emits.stage with none_staged | staged
  · rw [none_staged] at there
    cases there
  · rw [staged] at there
    rcases List.mem_append.mp there with copy | load
    · obtain ⟨index, lt, same⟩ := mem_copyCells copy writes
      have area := site.staged
      rw [slotAt_of_lt (by unfold slotCount at lt; omega)] at same
      exact disjoint index lt same
    · have same := mem_load load writes
      rw [slotAt_of_lt (lt_trans (site.handled site.calleeSlot List.mem_cons_self).1 fits)] at same
      exact apart same

def Leaves (site : CallSite) (spills : List OutSpill) (e : Execution site code) (after : List UInt64) : Prop :=
  ∀ ident ∈ site.locals,
    ((∀ spill ∈ spills, spill.localOffset ≠ ident) ∧ after[ident]? = e.caller.localsBuf[ident]?) ∨
    ∃ index other, site.OutArgument index other ∧ site.resolveBareIdentifier other = some ident ∧
      { slotIdx := site.form.slotBase + index, localOffset := ident : OutSpill } ∈ spills ∧
        after[ident]? = e.final.localsBuf[site.form.paramSlot e.receiver index]?

theorem Emits.returns (emits : site.Emits code spills) (fits : site.frameSlots < 8192) (e : Execution site code) :
    ∃ back after, step (e.final :: e.rest) .ret = some ({ e.caller with localsBuf := back } :: e.below) ∧
      exec e.fields (.assign (slotAt site.resultOffset) :: code.spills) (back, e.result) = some after ∧
      site.Leaves spills e after.1 := by
  obtain ⟨size, kept⟩ := emits.stage_keeps fits e
  have entered := enter_entered e.enters
  obtain ⟨rest, same⟩ := e.caller_kept
  obtain ⟨below, bits⟩ := buildOutMask_bits emits.outMask
  have area := site.staged
  -- the bits of the mask are the slots of the spills, whose parameters the callee has
  have bit_iff (slot : Nat) (lt : slot < 32) :
      e.final.outMask.getLsbD slot = true ↔ ∃ spill ∈ spills, spill.slotIdx = slot := by
    rw [same.outMask, entered.outMask]
    exact bits slot lt
  have shift (index : Nat) :
      site.form.slotBase + index + e.final.outShift = site.form.paramSlot e.receiver index := by
    rw [same.outShift, Nat.add_comm site.form.slotBase]
    exact entered.shift index
  have final : ∀ slot < 32, e.final.outMask.getLsbD slot = true →
      slot + e.final.outShift < e.final.localsBuf.length := by
    intro slot lt bit
    obtain ⟨spill, member, rfl⟩ := (bit_iff slot lt).mp bit
    obtain ⟨index, ident, out, -, slot⟩ := emits.outArgument member
    have params := entered.size
    rw [e.params, ← same.size, ← shift] at params
    have lt := out.lt
    omega
  have inside : ∀ slot < 32, e.final.outMask.getLsbD slot = true →
      e.final.callParamBase + slot < e.staged.1.length := by
    intro slot lt bit
    obtain ⟨spill, member, rfl⟩ := (bit_iff slot lt).mp bit
    have lt := emits.slot_lt member
    unfold slotCount at lt
    rw [same.callParamBase, entered.callParamBase, slotAt_of_lt (by omega), size]
    omega
  obtain ⟨back, popped, written⟩ :=
    @popFrameWithWriteback_written e.final { e.caller with localsBuf := e.staged.1 } e.below final inside
  have backSize : back.length = site.frameSlots := written.size.trans size
  obtain ⟨resultIn, resultApart⟩ := site.handled site.resultOffset (List.mem_cons_of_mem _ List.mem_cons_self)
  have resultSlot : slotAt site.resultOffset = site.resultOffset := slotAt_of_lt (lt_trans resultIn fits)
  have slots : ∀ spill ∈ spills, slotAt (site.callParamBase + spill.slotIdx) = site.callParamBase + spill.slotIdx ∧
      site.callParamBase + spill.slotIdx < site.frameSlots := by
    intro spill member
    have lt := emits.slot_lt member
    unfold slotCount at lt
    exact ⟨slotAt_of_lt (by omega), by omega⟩
  have locals : ∀ spill ∈ spills, slotAt spill.localOffset = spill.localOffset := fun spill member =>
    slotAt_of_lt (lt_trans (site.separate spill.localOffset (emits.local member)).1 fits)
  have setSize : (back.set site.resultOffset e.result).length = site.frameSlots := List.length_set.trans backSize
  obtain ⟨after, done, cells⟩ := @exec_spills e.fields site.callParamBase spills
    (back.set site.resultOffset e.result) e.result
    (by
      intro spill member
      rw [(slots spill member).1, setSize]
      exact (slots spill member).2)
    (by
      intro spill member
      rw [locals spill member, setSize]
      exact (site.separate spill.localOffset (emits.local member)).1)
    (by
      intro spill member other otherMember
      rw [locals spill member, (slots other otherMember).1]
      exact (site.separate spill.localOffset (emits.local member)).2.2.2 other.slotIdx (emits.slot_lt otherMember))
  refine ⟨back, after, ?_, ?_, ?_⟩
  · change popFrameWithWriteback (e.final :: e.rest) = _
    rw [rest]
    exact popped
  · rw [emits.spills, resultSlot]
    have room : site.resultOffset < back.length := backSize ▸ resultIn
    unfold exec
    rw [List.foldlM_cons]
    change (execInstr e.fields (back, e.result) (.assign site.resultOffset)).bind _ = _
    rw [execInstr, if_pos room]
    exact done
  · intro ident member
    obtain ⟨identIn, -, apart, disjoint⟩ := site.separate ident member
    rcases cells ident with ⟨untouched, value⟩ | ⟨spill, spilled, target, value⟩
    · refine .inl ⟨fun spill spilled here => untouched spill spilled ((locals spill spilled).trans here), ?_⟩
      rw [value, List.getElem?_set_ne apart.symm, written.others ident ?_]
      · exact kept ident member
      · intro slot lt bit here
        obtain ⟨spill, spilled, rfl⟩ := (bit_iff slot lt).mp bit
        rw [same.callParamBase, entered.callParamBase, slotAt_of_lt (by omega)] at here
        exact disjoint spill.slotIdx (emits.slot_lt spilled) here
    · obtain ⟨index, other, out, resolves, slot⟩ := emits.outArgument spilled
      rw [locals spill spilled] at target
      subst target
      refine .inr ⟨index, other, out, resolves, ?_, ?_⟩
      · rw [← slot]
        exact spilled
      · have marked := written.marked spill.slotIdx (below spill spilled)
          ((bit_iff spill.slotIdx (below spill spilled)).mpr ⟨spill, spilled, rfl⟩)
        rw [same.callParamBase, entered.callParamBase, slotAt_of_lt (by omega), slot, shift] at marked
        rw [value, (slots spill spilled).1, List.getElem?_set_ne, slot, marked]
        exact fun here => resultApart spill.slotIdx (emits.slot_lt spilled) here

theorem Marked.exact (marked : site.Marked) (emits : site.Emits code spills) (fits : site.frameSlots < 8192)
    (e : Execution site code) {after : List UInt64} (cells : site.Leaves spills e after) : e.Returns after where
  outs := by
    intro index ident out
    have member := out.local
    rw [slotAt_of_lt (lt_trans (site.separate ident member).1 fits)]
    rcases cells ident member with ⟨untouched, -⟩ | ⟨second, other, outOther, resolves, -, value⟩
    · exfalso
      obtain ⟨overCeiling, -⟩ | ⟨-, recorded⟩ := emits.recorded
      · exact marked.within overCeiling
      · obtain ⟨binding, found, marker⟩ := marked.marked index ident out
        have resolves := marked.own index ident out
        obtain ⟨own, here, -, given⟩ := out
        rw [found] at here
        cases here
        have spilled : { slotIdx := site.form.slotBase + index, localOffset := ident : OutSpill } ∈ spills :=
          (mem_recordOutSpills recorded _).mpr ⟨index, binding, found,
            ⟨marker, by rw [given]; exact resolves⟩, rfl⟩
        exact untouched _ spilled rfl
    · have same : other = ident := Option.some.inj ((marked.own second other outOther).symm.trans resolves)
      subst same
      rw [marked.distinct index second other out outOther]
      exact value
  others := by
    intro ident member plain
    rw [slotAt_of_lt (lt_trans (site.separate ident member).1 fits)]
    rcases cells ident member with ⟨-, value⟩ | ⟨second, other, outOther, resolves, -⟩
    · exact value
    · have same : other = ident := Option.some.inj ((marked.own second other outOther).symm.trans resolves)
      exact absurd (same ▸ outOther) (plain second)

theorem Leaves.of_plain {e : Execution site code} {after : List UInt64} (cells : site.Leaves spills e after)
    (fits : site.frameSlots < 8192) (plain : ∀ index ident, ¬ site.OutArgument index ident) : e.Returns after where
  outs := fun index ident out => absurd out (plain index ident)
  others := by
    intro ident member _
    rw [slotAt_of_lt (lt_trans (site.separate ident member).1 fits)]
    rcases cells ident member with ⟨-, value⟩ | ⟨second, other, outOther, -⟩
    · exact value
    · exact absurd outOther (plain second other)

def Clean (site : CallSite) : Prop :=
  (∃ failure, site.emit = .error failure) ∨ (∀ index ident, ¬ site.OutArgument index ident) ∨ site.Marked

theorem Clean.writesBack (clean : site.Clean) (fits : site.frameSlots < 8192) : site.WritesBack := by
  intro code emitted e
  obtain ⟨spills, emits⟩ := emit_emits emitted
  obtain ⟨back, after, popped, done, cells⟩ := emits.returns fits e
  refine ⟨⟨back, after, popped, done, ?_⟩, ?_⟩
  · rcases clean with ⟨failure, failed⟩ | plain | marked
    · rw [failed] at emitted
      cases emitted
    · exact cells.of_plain fits plain
    · exact marked.exact emits fits e cells
  · obtain ⟨rest, -⟩ := e.caller_kept
    refine ⟨e.staged.1, congrArg some rest, fun ident member => ?_⟩
    rw [slotAt_of_lt (lt_trans (site.separate ident member).1 fits)]
    exact (emits.stage_keeps fits e).2 ident member

theorem paramSlot_none (form : CallForm) (index : Nat) : form.paramSlot none index = index + form.slotBase := by
  cases form with
  | direct => rfl
  | method => rfl
  | delegate => rfl

theorem enter_none (outMask : BitVec 32) (callee : CompiledFunction) :
    site.enter outMask callee none = pushFrameCore callee (slotAt site.callParamBase) outMask 0 none := by
  unfold enter
  cases site.form with
  | direct => rfl
  | method => rfl
  | delegate => rfl

theorem Emits.stages (emits : site.Emits code spills) (fits : site.frameSlots < 8192) :
    ∃ staged, exec (fun _ _ => some 0) code.stage (List.replicate site.frameSlots 0, 0) = some staged := by
  apply exec_total
  rw [List.length_replicate]
  intro instr member
  rcases emits.stage with none_staged | staged
  · rw [none_staged] at member
    cases member
  · have claimed := site.claimed
    have area := site.staged
    have callee := (site.handled site.calleeSlot List.mem_cons_self).1
    rw [staged] at member
    rcases List.mem_append.mp member with copy | load
    · obtain ⟨index, lt, here⟩ := List.mem_flatMap.mp copy
      have within := List.mem_range.mp lt
      unfold slotCount at within
      rcases List.mem_pair.mp here with rfl | rfl
      · rw [Instr.slot, slotAt_of_lt (by omega)]
        omega
      · rw [Instr.slot, slotAt_of_lt (by omega)]
        omega
    · cases handle : site.handle with
      | parked =>
        rw [handle] at load
        cases load
      | «local» source =>
        rw [handle] at load
        have inside := site.sources source (.inl handle)
        rcases List.mem_pair.mp load with rfl | rfl
        · rw [Instr.slot, slotAt_of_lt (lt_trans inside fits)]
          exact inside
        · rw [Instr.slot, slotAt_of_lt (lt_trans callee fits)]
          exact callee
      | thisField this fieldOff =>
        rw [handle] at load
        have inside := site.sources this (.inr ⟨fieldOff, handle⟩)
        simp only [Handle.load, List.mem_cons, List.not_mem_nil, or_false] at load
        rcases load with rfl | rfl | rfl
        · rw [Instr.slot, slotAt_of_lt (lt_trans inside fits)]
          exact inside
        · rw [Instr.slot, slotAt_of_lt (lt_trans callee fits)]
          exact callee
        · rw [Instr.slot, slotAt_of_lt (lt_trans callee fits)]
          exact callee

theorem Emits.telling (emits : site.Emits code spills) (fits : site.frameSlots < 8192) :
    ∃ e : Execution site code, e.caller.localsBuf = List.replicate site.frameSlots 0 ∧ ∀ index < site.bindings.length,
      e.final.localsBuf[site.form.paramSlot e.receiver index]? = some (UInt64.ofNat (index + 1)) := by
  obtain ⟨staged, stages⟩ := emits.stages fits
  have size : staged.1.length = site.frameSlots := (exec_keeps stages).1.trans List.length_replicate
  have area := site.staged
  let params := site.bindings.length + site.form.slotBase
  let callee : CompiledFunction := { paramCount := params, localsSize := params }
  let caller : CallFrame := { localsBuf := List.replicate site.frameSlots 0 }
  let args := (staged.1.drop (slotAt site.callParamBase)).take params
  let called : CallFrame := { localsBuf := args, outMask := code.outMask, callParamBase := slotAt site.callParamBase }
  have base : slotAt site.callParamBase = site.callParamBase := slotAt_of_lt (by omega)
  have argsSize : args.length = params := by
    simp only [args, List.length_take, List.length_drop, size, base]
    omega
  have entered : site.enter code.outMask callee none [{ caller with localsBuf := staged.1 }] =
      some [called, { caller with localsBuf := staged.1 }] := by
    have copied : argumentCells staged.1 (slotAt site.callParamBase) params = some args :=
      if_pos (by rw [size, base]; exact area)
    rw [enter_none]
    simp only [pushFrameCore, stageFrameParams, callee, copied]
    simp [recurseLimit, called]
  let values := (List.range params).map fun slot => UInt64.ofNat (slot + 1 - site.form.slotBase)
  have valuesSize : values.length = called.localsBuf.length := by simp [values, called, argsSize]
  refine ⟨
    { fields := fun _ _ => some 0, caller, below := [], size := ?_, pResult := 0, staged, stages, callee
      receiver := none, params := (paramSlot_none site.form site.bindings.length).symm, called, enters := entered
      final := { called with localsBuf := values }, rest := [{ caller with localsBuf := staged.1 }]
      runs := @run_stores called [{ caller with localsBuf := staged.1 }] values valuesSize
      ends := rfl, result := 0 }, rfl, ?_⟩
  · rw [slotAt_of_lt fits]
    exact List.length_replicate
  · intro index lt
    change values[site.form.paramSlot none index]? = _
    rw [paramSlot_none, List.getElem?_map, List.getElem?_range (by simp only [params]; omega)]
    simp only [Option.map_some, Option.some.injEq]
    congr 1
    omega

theorem index_lt (site : CallSite) {index : Nat} (fits : site.frameSlots < 8192) (lt : index < site.bindings.length) :
    index + 1 < 2 ^ 64 := by
  have area := site.staged
  omega

theorem ofNat_inj {index other : Nat} (small : index + 1 < 2 ^ 64) (otherSmall : other + 1 < 2 ^ 64)
    (same : UInt64.ofNat (index + 1) = UInt64.ofNat (other + 1)) : index = other := by
  have values := congrArg UInt64.toNat same
  rw [UInt64.toNat_ofNat_of_lt' small, UInt64.toNat_ofNat_of_lt' otherSmall] at values
  exact Nat.succ.inj values

theorem ofNat_ne_zero {index : Nat} (small : index + 1 < 2 ^ 64) : UInt64.ofNat (index + 1) ≠ 0 := by
  intro same
  have values := congrArg UInt64.toNat same
  rw [UInt64.toNat_ofNat_of_lt' small] at values
  exact absurd values (Nat.succ_ne_zero index)

theorem WritesBack.clean (exact : site.WritesBack) (fits : site.frameSlots < 8192) : site.Clean := by
  by_cases plain : ∀ index ident, ¬ site.OutArgument index ident
  · exact .inr (.inl plain)
  cases emitted : site.emit with
  | error failure => exact .inl ⟨failure, emitted⟩
  | ok code =>
    obtain ⟨spills, emits⟩ := emit_emits emitted
    obtain ⟨e, zeros, tells⟩ := emits.telling fits
    obtain ⟨back, after, popped, done, cells⟩ := emits.returns fits e
    obtain ⟨⟨back', after', popped', done', returns⟩, -⟩ := exact code emitted e
    obtain rfl : back = back' := by
      have same := Option.some.inj (popped.symm.trans popped')
      exact congrArg CallFrame.localsBuf (List.cons.inj same).1
    obtain rfl : after = after' := Option.some.inj (done.symm.trans done')
    have value {index ident : Nat} (out : site.OutArgument index ident) :
        after.1[ident]? = some (UInt64.ofNat (index + 1)) := by
      rw [← tells index out.lt, ← returns.outs index ident out,
        slotAt_of_lt (lt_trans (site.separate ident out.local).1 fits)]
    have told {index ident : Nat} (out : site.OutArgument index ident) : ¬ site.OverCeiling ∧
        ∃ binding, site.bindings[index]? = some binding ∧ binding.isOut = true ∧
          site.resolveBareIdentifier ident = some ident := by
      rcases cells ident out.local with ⟨-, held⟩ | ⟨second, other, outOther, -, spilled, given⟩
      · -- the variable still holds its zero
        have inside := (site.separate ident out.local).1
        rw [value out, zeros, List.getElem?_replicate_of_lt inside] at held
        exact absurd (Option.some.inj held) (ofNat_ne_zero (site.index_lt fits out.lt))
      · rw [value out, tells second outOther.lt] at given
        have same := ofNat_inj (site.index_lt fits out.lt) (site.index_lt fits outOther.lt) (Option.some.inj given)
        obtain ⟨within, third, binding, found, ⟨marker, target⟩, slot⟩ := emits.mem spilled
        obtain rfl : third = index := by
          have := slot
          simp only at this
          omega
        obtain ⟨own, here, -, callerExpr⟩ := out
        rw [found] at here
        cases here
        rw [callerExpr] at target
        exact ⟨within, binding, found, marker, target⟩
    obtain ⟨first, ident, out⟩ : ∃ index ident, site.OutArgument index ident := by
      simpa only [not_forall, not_not] using plain
    refine .inr (.inr ⟨(told out).1, fun index ident out => ?_, fun index ident out => ?_, ?_⟩)
    · obtain ⟨-, binding, found, marker, -⟩ := told out
      exact ⟨binding, found, marker⟩
    · obtain ⟨-, binding, -, -, own⟩ := told out
      exact own
    · intro index other ident out outOther
      have same := (value out).symm.trans (value outOther)
      exact ofNat_inj (site.index_lt fits out.lt) (site.index_lt fits outOther.lt) (Option.some.inj same)

end CallSite

/-- In a frame whose offsets fit, the write-back is exact where out parameters get marked variables, each its own. -/
theorem writesBack_iff (site : CallSite) (fits : site.frameSlots < 8192) : site.WritesBack ↔ site.Clean :=
  ⟨fun exact => exact.clean fits, fun clean => clean.writesBack fits⟩

def mixedCall : CallSite where
  form := .direct
  formals := [⟨"a", false, false⟩, ⟨"y", true, false⟩, ⟨"b", false, true⟩]
  actuals := [.positional none, .out 0, .named "b" none]
  bindings := [⟨⟨"a", false, false⟩, some none, false⟩, ⟨⟨"y", true, false⟩, some (some 0), true⟩,
    ⟨⟨"b", false, true⟩, some none, false⟩]
  binds := by decide
  resolveBareIdentifier := fun ident => if ident = 0 then some 0 else none
  handle := .parked
  locals := [0]
  claimBase := 10
  callParamBase := 6
  calleeSlot := 9
  resultOffset := 1
  frameSlots := 14
  claimed := by decide
  staged := by decide
  handled := by decide
  sources := by simp
  separate := by decide
  known := by simp
  resolved := by simp

theorem mixedCall_outArgument {index ident : Nat} (out : mixedCall.OutArgument index ident) : index = 1 ∧ ident = 0 := by
  obtain ⟨binding, found, formal, given⟩ := out
  match index with
  | 0 =>
    cases found
    cases formal
  | 1 =>
    cases found
    cases given
    exact ⟨rfl, rfl⟩
  | 2 =>
    cases found
    cases formal
  | index + 3 => cases found

theorem mixedCall_writesBack : mixedCall.frameSlots < 8192 ∧ mixedCall.WritesBack := by
  refine ⟨by decide, (writesBack_iff mixedCall (by decide)).mpr (.inr (.inr ⟨by decide, ?_, ?_, ?_⟩))⟩
  · intro index ident out
    obtain ⟨rfl, rfl⟩ := mixedCall_outArgument out
    exact ⟨_, rfl, rfl⟩
  · intro index ident out
    obtain ⟨rfl, rfl⟩ := mixedCall_outArgument out
    rfl
  · intro index other ident out outOther
    exact (mixedCall_outArgument out).1.trans (mixedCall_outArgument outOther).1.symm

def namedCall : CallSite where
  form := .direct
  formals := [⟨"b", true, false⟩]
  actuals := [.named "b" (some 0)]
  bindings := [⟨⟨"b", true, false⟩, some (some 0), false⟩]
  binds := by decide
  resolveBareIdentifier := fun ident => if ident = 0 then some 0 else none
  handle := .parked
  locals := [0]
  claimBase := 8
  callParamBase := 6
  calleeSlot := 7
  resultOffset := 1
  frameSlots := 10
  claimed := by decide
  staged := by decide
  handled := by decide
  sources := by simp
  separate := by decide
  known := by simp
  resolved := by simp

theorem namedCall_lost : ¬ ∀ site : CallSite, site.WritesBack := by
  intro claim
  have out : namedCall.OutArgument 0 0 := ⟨_, rfl, rfl, rfl⟩
  obtain ⟨failure, failed⟩ | plain | marked := (claim namedCall).clean (by decide)
  · cases failed
  · exact plain 0 0 out
  · obtain ⟨binding, found, marker⟩ := marked.marked 0 0 out
    cases found
    cases marker

end NLang.Backend.OutArguments
