import X86.Proofs.Execute.Arithmetic

/-!
# Footprints and derivations of data movement

`XCHG` writes its destination before its source, a far pointer load writes a general register after
a segment register, and `IN` writes its destination after the device has answered. They are
restartable because the decoder makes the later one a register.

In the derivations a selector is written by a segment load only, and a control or debug register
exists on a wide model only.
-/

namespace X86

/-- The kinds of change that a write to an operand needs beside that of a general register. -/
def Operand.kinds : Operand → List ChangeKind
  | .reg (.seg .ss) => [.segment, .hold]
  | .reg (.seg s) => [.ofSegment s]
  | .control _ | .debug _ => [.system]
  | _ => []

theorem Operand.ofSegment_mem_kinds (s : SegReg) :
    ChangeKind.ofSegment s ∈ (Operand.reg (.seg s)).kinds := by
  cases s <;> simp [kinds, ChangeKind.ofSegment]

/-- A write to an operand loads a segment register, or it is one to a control or debug register. -/
theorem Operand.mem_kinds {o : Operand} {k : ChangeKind} (h : k ∈ o.kinds) :
    k ∈ [ChangeKind.code, .segment, .hold] ∨
      k = .system ∧ ((∃ n, o = .control n) ∨ ∃ n, o = .debug n) := by
  cases o with
  | reg r =>
    cases r with
    | seg s =>
      have hLoads : ∀ k ∈ (Operand.reg (.seg s)).kinds, k ∈ [ChangeKind.code, .segment, .hold] := by
        cases s <;> decide
      exact .inl (hLoads k h)
    | byte _ | word _ | dword _ => cases h
  | control n => exact .inr ⟨List.mem_singleton.1 h, .inl ⟨n, rfl⟩⟩
  | debug n => exact .inr ⟨List.mem_singleton.1 h, .inr ⟨n, rfl⟩⟩
  | _ => cases h

namespace Exec

variable {K : ChangeKind → Prop} {S : Prop}

theorem sure_setCr0 (hS : K .system) (v : UInt32) : Sure K (setCr0 v) := by
  have hSet (v : UInt32) : Sure K (modifyCpu (·.setCr0 v)) :=
    .modify fun m => .control m .zero v hS
  refine Sure.get.bind fun m => ?_
  exact .optional (.log _) (.optional (.log _) (hSet _))

theorem restartable_movSpecial (hG : K .general) (i : Instruction)
    (hD : ∀ k ∈ i.dst.kinds, K k) : Restartable K S (movSpecial i) := by
  refine .after_reads .cpu fun c => .after_reads (.check _) fun _ => .after_reads .regs fun g => ?_
  split
  · rename_i hDst _
    have hS : K .system := hD _ (by simp [hDst, Operand.kinds])
    split
    · exact (sure_setCr0 hS _).restartable
    · exact Sure.restartable (.modify fun m => .control m _ _ hS)
  · rename_i hDst _
    have hS : K .system := hD _ (by simp [hDst, Operand.kinds])
    exact Sure.restartable (.modify fun m => .debug m _ _ hS)
  · exact (Rewrites.setDword hG _ fun _ => _).sure.restartable
  · exact (Rewrites.setDword hG _ fun _ => _).sure.restartable
  · exact .fault _

theorem restartable_movPlain (hG : K .general) (i : Instruction) :
    Restartable K S (movPlain i) := by
  refine .after_reads (.place i _) fun src => .after_reads (.place i _) fun dst => ?_
  exact .after_reads (.readPlace _ _) fun v => .writePlace hG _ _ _

theorem restartable_loadOperand {o : Operand} {s : SegReg} (ho : o = .reg (.seg s))
    (hD : ∀ k ∈ o.kinds, K k) (selector : UInt16) : Restartable K S (loadSegmentHeld s selector) := by
  subst ho
  refine .loadSegmentHeld s (hD _ (Operand.ofSegment_mem_kinds s)) (fun hs => ?_) selector
  subst hs
  exact hD _ (by simp [Operand.kinds])

theorem restartable_mov (hG : K .general) (i : Instruction) (hD : ∀ k ∈ i.dst.kinds, K k) :
    Restartable K S (mov i) := by
  rw [mov]
  split
  iterate 4 exact restartable_movSpecial hG i hD
  · rename_i hDst _ _
    refine .after_reads (.place i _) fun p => .after_reads (.readPlace _ _) fun selector => ?_
    exact restartable_loadOperand hDst hD _
  · refine .after_reads (.place i _) fun p => .after_reads .regs fun g => ?_
    exact .writePlace hG _ _ _
  · exact restartable_movPlain hG i

theorem restartable_movExtend (hG : K .general) (signed : Bool) (i : Instruction) :
    Restartable K S (movExtend signed i) := by
  refine .after_reads (.place i _) fun src => .after_reads (.place i _) fun dst => ?_
  exact .after_reads (.readPlace _ _) fun v => .writePlace hG _ _ _

theorem restartable_xchg (hG : K .general) (i : Instruction) {r : Register}
    (hSrc : i.src = .reg r) : Restartable K S (xchg i) := by
  refine .after_reads (.place i _) fun dst => ?_
  refine .after_answer (Reads.place i _).quiet fun src hp => ?_
  rw [eq_reg_of_answers hSrc hp]
  refine .after_reads (.readPlace _ _) fun a => .after_reads (.readPlace _ _) fun b => ?_
  exact (Restartable.writePlace hG _ _ _).before_sure fun _ => .writePlace_reg hG r _ _

theorem restartable_lea (hG : K .general) (i : Instruction) : Restartable K S (lea i) := by
  refine .after_reads (.place i _) fun dst => .after_reads (.location i _) fun l => ?_
  exact .writePlace hG _ _ _

theorem restartable_loadFar (hG : K .general) (s : SegReg) (hs : K (.ofSegment s))
    (i : Instruction) {r : Register} (hDst : i.dst = .reg r) : Restartable K S (loadFar s i) := by
  refine .after_reads (.location i _) fun l => .after_reads (.readFar l _) fun p => ?_
  refine (Restartable.loadSegment s hs _).before_sure fun _ => ?_
  refine (Sure.place i _).bind_answer fun dst hp => ?_
  rw [eq_reg_of_answers hDst hp]
  exact .writePlace_reg hG r _ _

theorem restartable_xlat (hG : K .general) (i : Instruction) : Restartable K S (xlat i) := by
  refine .after_reads .regs fun g => .after_reads (.readMem _ _) fun v => ?_
  exact (Rewrites.setByte hG .al fun _ => _).sure.restartable

theorem restartable_lahf (hG : K .general) : Restartable K S lahf :=
  (Rewrites.setByte hG .ah fun _ => _).sure.restartable

theorem restartable_sahf (hF : K .flags) : Restartable K S sahf :=
  .after_reads .regs fun _ => (Sure.setFlags hF _).restartable

theorem restartable_flag (hF : K .flags) (op : FlagOp) (hH : op = .sti → K .hold) :
    Restartable K S (flag op) := by
  refine .after_reads .cpu fun c => ?_
  have hSet : Sure K (if op = .sti ∧ !c.regs.flags.interrupt then do
      holdInterrupts
      setFlags (changeFlag op c.regs.flags) else setFlags (changeFlag op c.regs.flags)) := by
    by_cases hop : op = .sti
    · exact .optional (.holdInterrupts (hH hop)) (.setFlags hF _)
    · rw [if_neg fun h => hop h.1]
      exact .setFlags hF _
  exact .ite (.after_reads (.check _) fun _ => hSet.restartable) hSet.restartable

theorem restartable_inputPort (hG : K .general) (hP : K .port) (i : Instruction) {r : Register}
    (hDst : i.dst = .reg r) : Restartable K S (inputPort i) := by
  refine .after_reads .cpu fun c => .after_reads (.check _) fun _ => ?_
  refine .after_reads (.port i _) fun n => Sure.restartable ?_
  refine (Sure.input hP n _).bind fun v => (Sure.place i _).bind_answer fun dst hp => ?_
  rw [eq_reg_of_answers hDst hp]
  exact .writePlace_reg hG r _ _

theorem restartable_outputPort (hP : K .port) (i : Instruction) :
    Restartable K S (outputPort i) := by
  refine .after_reads .cpu fun c => .after_reads (.check _) fun _ => ?_
  refine .after_reads (.port i _) fun n => .after_reads (.place i _) fun src => ?_
  exact .after_reads (.readPlace _ _) fun v => (Sure.output hP n _ v).restartable

theorem restartable_setcc (hG : K .general) (c : Condition) (i : Instruction) :
    Restartable K S (setcc c i) :=
  .after_reads (.place i _) fun _ => .after_reads .flags fun _ => .writePlace hG _ _ _

theorem restartable_salc (hG : K .general) : Restartable K S salc :=
  (Rewrites.setByte hG .al fun _ => _).sure.restartable

/-! ### Derivations -/

section Derivations

variable {wide : Bool} {P : Cpu → Prop} {i : Instruction}

theorem composed_setCr0 (hw : wide = true) (v : UInt32) :
    Composed wide P (setCr0 v) fun _ _ => True := by
  have hSet {P : Cpu → Prop} (v : UInt32) :
      Composed wide P (modifyCpu (·.setCr0 v)) fun _ _ => True :=
    .moves fun c => .single (.control c .zero v hw)
  refine .afterGet (fun m => rfl) fun m _ => ?_
  have hEnd {P : Cpu → Prop} (p : Prop) [Decidable p] (v : UInt32) : Composed wide P (do
      if p then log .pagingIgnored
      modifyCpu (·.setCr0 v)) fun _ _ => True :=
    .ite (fun _ => .afterLog (hSet v)) fun _ => hSet v
  exact .ite (fun _ => .afterLog (hEnd _ _)) fun _ => hEnd _ _

theorem composed_movSpecial (hw : wide = true) (i : Instruction) :
    Composed wide P (movSpecial i) fun _ _ => True := by
  refine .afterCpu fun c _ => .afterCheck fun _ => .afterRegs fun g => ?_
  split
  · split
    · exact composed_setCr0 hw _
    · exact .moves fun c => .single (.control c _ _ hw)
  · exact .moves fun c => .single (.debug c _ _ hw)
  · exact .modifyRegs (.setDword hw _ fun _ => _)
  · exact .modifyRegs (.setDword hw _ fun _ => _)
  · exact .fault _

/-- What an instruction may load into a segment register of a model of this width: not the code
segment, which takes the instruction pointer along, except that the oldest models do so. -/
@[simp] def MayLoad (wide : Bool) (s : SegReg) : Prop := s.Fits wide ∧ (s = .cs → wide = false)

theorem composed_movPlain (hi : i.Fits wide) (hDst : i.dst.IsPlain) :
    Composed wide P (movPlain i) fun _ _ => True := by
  refine .afterPlace hi.src hi.addr32 fun src hq _ => ?_
  refine .afterPlace hi.dst hi.addr32 fun dst hp hPlain => ?_
  exact .afterReadPlace hq fun v => .writePlace hp (hPlain hDst) _ _

theorem composed_mov (hi : i.Fits wide) (hLoad : ∀ s, i.dst = .reg (.seg s) → MayLoad wide s) :
    Composed wide P (mov i) fun _ _ => True := by
  have hDst := hi.dst
  have hSrc := hi.src
  rw [mov]
  split
  case h_1 h | h_2 h => exact composed_movSpecial (by rwa [h] at hDst) i
  case h_3 h _ _ | h_4 h _ _ => exact composed_movSpecial (by rwa [h] at hSrc) i
  case h_5 s h _ _ =>
    obtain ⟨hs, hc⟩ := hLoad s h
    refine .afterPlace hi.src hi.addr32 fun src hq _ => .afterReadPlace hq fun selector => ?_
    exact .loadSegmentHeld hs hc _
  case h_6 s _ _ _ hPlainDst =>
    refine .afterPlace hi.dst hi.addr32 fun dst hp hPlain => .afterRegs fun g => ?_
    exact .writePlace hp (hPlain hPlainDst) _ _
  case h_7 hPlainDst _ _ _ => exact composed_movPlain hi hPlainDst

theorem composed_movExtend (signed : Bool) (hi : i.Fits wide) (hDst : i.dst.IsPlain) :
    Composed wide P (movExtend signed i) fun _ _ => True := by
  refine .afterPlace hi.src hi.addr32 fun src hq _ => ?_
  refine .afterPlace hi.dst hi.addr32 fun dst hp hPlain => ?_
  exact .afterReadPlace hq fun v => .writePlace hp (hPlain hDst) _ _

theorem composed_xchg (hi : i.Fits wide) (hDst : i.dst.IsPlain) (hSrc : i.src.IsPlain) :
    Composed wide P (xchg i) fun _ _ => True := by
  refine .afterPlace hi.dst hi.addr32 fun dst hp hPlain => ?_
  refine .afterPlace hi.src hi.addr32 fun src hq hPlain' => ?_
  refine .afterReadPlace hp fun a => .afterReadPlace hq fun b => ?_
  exact (Composed.writePlace hp (hPlain hDst) _ _).next fun _ =>
    .writePlace hq (hPlain' hSrc) _ _

theorem composed_lea (hi : i.Fits wide) (hDst : i.dst.IsPlain) :
    Composed wide P (lea i) fun _ _ => True := by
  refine .afterPlace hi.dst hi.addr32 fun dst hp hPlain => ?_
  exact .afterLocation hi.src hi.addr32 fun l _ => .writePlace hp (hPlain hDst) _ _

theorem composed_loadFar {s : SegReg} (hs : s.Fits wide) (hc : s = .cs → wide = false)
    (hi : i.Fits wide) (hDst : i.dst.IsPlain) :
    Composed wide P (loadFar s i) fun _ _ => True := by
  refine .afterLocation hi.src hi.addr32 fun l hl => ?_
  refine (Composed.readFar hl _).next fun p => ?_
  refine (Composed.loadSegment s _ hs hc).next fun _ => ?_
  exact .afterPlace hi.dst hi.addr32 fun dst hp hPlain => .writePlace hp (hPlain hDst) _ _

theorem composed_xlat (hi : i.Fits wide) : Composed wide P (xlat i) fun _ _ => True := by
  refine .afterRegs fun g => .afterReadMem (fun hw => hi.addr32 hw) fun v => ?_
  exact .modifyRegs (.setByte .al fun _ => _)

theorem composed_lahf : Composed wide P lahf fun _ _ => True :=
  .modifyRegs (.setByte .ah fun _ => _)

theorem composed_sahf : Composed wide P sahf fun _ _ => True :=
  .afterRegs fun _ => .of_regs (.setFlags ⟨rfl, rfl, rfl, rfl, rfl, rfl⟩)

theorem composed_flag (op : FlagOp) : Composed wide P (flag op) fun _ _ => True := by
  refine .afterCpu fun c _ => .of_flags ?_
  have hSame : (changeFlag op c.regs.flags).SameSystem c.regs.flags := by
    cases op <;> exact ⟨rfl, rfl, rfl, rfl, rfl, rfl⟩
  have hHold : Composed wide (·.regs.flags = c.regs.flags) holdInterrupts
      fun _ c' => c'.regs.flags = c.regs.flags :=
    .move_keeping (t := fun c => c.regs.flags) (fun c => .activity c _ _ _ _ _) fun _ => rfl
  have hSet : Composed wide (·.regs.flags = c.regs.flags) (do
      if op = .sti ∧ !c.regs.flags.interrupt then holdInterrupts
      setFlags (changeFlag op c.regs.flags)) fun _ _ => True :=
    .ite (fun _ => hHold.next fun _ => .setFlags hSame) fun _ => .setFlags hSame
  exact .ite (fun _ => .afterCheck fun _ => hSet) fun _ => hSet

theorem composed_inputPort (hi : i.Fits wide) (hDst : i.dst.IsPlain) :
    Composed wide P (inputPort i) fun _ _ => True := by
  refine .afterCpu fun c _ => .afterCheck fun _ => .afterPort hi.src hi.addr32 fun n => ?_
  refine (Composed.input n _).next fun v => ?_
  exact .afterPlace hi.dst hi.addr32 fun dst hp hPlain => .writePlace hp (hPlain hDst) _ _

theorem composed_outputPort (hi : i.Fits wide) :
    Composed wide P (outputPort i) fun _ _ => True := by
  refine .afterCpu fun c _ => .afterCheck fun _ => .afterPort hi.dst hi.addr32 fun n => ?_
  refine .afterPlace hi.src hi.addr32 fun src hq _ => .afterReadPlace hq fun v => ?_
  exact (Composed.output n _ v).forget

theorem composed_setcc (c : Condition) (hi : i.Fits wide) (hDst : i.dst.IsPlain) :
    Composed wide P (setcc c i) fun _ _ => True :=
  .afterPlace hi.dst hi.addr32 fun _ hp hPlain =>
    .afterFlags fun _ => .writePlace hp (hPlain hDst) _ _

theorem composed_salc : Composed wide P salc fun _ _ => True :=
  .modifyRegs (.setByte .al fun _ => _)

end Derivations

end Exec

end X86
