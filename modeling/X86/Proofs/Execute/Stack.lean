import X86.Proofs.Execute.Data

/-!
# Footprints and derivations of stack instructions

Pops are quiet, and so are pushes but for what they store, so that several of them may fail half
way. What an instruction writes elsewhere, it writes after the last of them.

The derivations name the stack by offsets of its own width, which a narrow model keeps at 16 bits.
-/

namespace X86.Exec

variable {K : ChangeKind → Prop} {S : Prop}

theorem Reads.pushedValue (i : Instruction) : Reads (pushedValue i) := by
  refine .bind .cpu fun c => ?_
  split
  · exact .pure _
  · split
    · exact .pure _
    · exact .bind (.place i _) fun _ => .readPlace _ _

theorem restartable_pushOperand (i : Instruction) : Restartable K S (pushOperand i) :=
  .after_reads (.pushedValue i) fun _ => .push _ _

theorem restartable_popOperand (hG : K .general) (i : Instruction)
    (hD : ∀ k ∈ i.dst.kinds, K k) : Restartable K S (popOperand i) := by
  refine .after_quiet (.pop _) fun v => ?_
  split
  · rename_i hDst
    exact restartable_loadOperand hDst hD _
  · exact .after_reads (.place i _) fun _ => .writePlace hG _ _ _

theorem isSegment_stackView (w : Width) (r : Gpr) : (stackView w r).isSegment = false := by
  cases w <;> rfl

theorem restartable_pusha (hS : S) (i : Instruction) : Restartable K S (pusha i) :=
  .after_reads .regs fun _ => ((Changes.pushList _ _).quiet hS).restartable

/-- The popped values are written one by one. -/
theorem Rewrites.setPopped (hG : K .general) (w : Width) (vs : List UInt32) :
    Rewrites K (setPopped w · vs) := by
  have hFold (rvs : List (Gpr × UInt32)) : Rewrites K fun g =>
      rvs.foldl (fun g x => if x.1 = .sp then g else g.write (stackView w x.1) x.2) g := by
    induction rvs with
    | nil => exact fun m => .refl m
    | cons rv rvs ih =>
      by_cases hr : rv.1 = .sp
      · simpa [hr] using ih
      · simpa [hr] using (Rewrites.write hG (isSegment_stackView w rv.1) fun _ => rv.2).comp ih
  exact hFold _

theorem restartable_popa (hG : K .general) (i : Instruction) : Restartable K S (popa i) :=
  .after_quiet (.popList _ _ _) fun _ => (Rewrites.setPopped hG _ _).sure.restartable

theorem restartable_pushf (i : Instruction) : Restartable K S (pushf i) :=
  .after_reads .cpu fun _ => .push _ _

theorem Sure.loadFlags (hF : K .flags) (v : UInt32) (w : Width) :
    Sure K (modifyCpu (·.loadFlags v w)) :=
  .modify fun m => .flags m _ hF

theorem restartable_popf (hF : K .flags) (i : Instruction) : Restartable K S (popf i) :=
  .after_quiet (.pop _) fun _ => (Sure.loadFlags hF _ _).restartable

theorem Changes.copyFrames (w : Width) (n : Nat) (bp : UInt32) :
    Changes K (copyFrames w n bp) := by
  induction n generalizing bp with
  | zero => exact .pure ()
  | succ n ih =>
    refine Reads.cpu.changes.bind fun c => (Reads.readMem _ _).changes.bind fun v => ?_
    exact (Changes.push v w).bind fun _ => ih _

theorem restartable_enter (hG : K .general) (hS : S) (i : Instruction) :
    Restartable K S (enter i) := by
  refine .after_reads .regs fun g => .after_quiet (.push hS _ _) fun _ => ?_
  refine .after_reads .cpu fun c => ?_
  have hEnd (frame : UInt32) (v : Cpu → UInt32) : Sure K (do
      writeRegister (stackView i.size .bp) frame
      modifyCpu fun c => c.setStackPointer (v c)) :=
    (Sure.writeRegister hG (isSegment_stackView _ _) frame).bind fun _ => .moveStack v
  refine .ite ?_ (hEnd _ _).restartable
  refine .after_quiet ((Changes.copyFrames _ _ _).quiet hS) fun _ => ?_
  exact (Restartable.push _ _).before_sure fun _ => hEnd _ _

theorem restartable_leave (hG : K .general) (i : Instruction) : Restartable K S (leave i) := by
  refine .after_quiet (.moveStack _) fun _ => .after_quiet (.pop _) fun v => ?_
  exact (Sure.writeRegister hG (isSegment_stackView _ _) v).restartable

/-! ### Derivations -/

section Derivations

variable {wide : Bool} {P : Cpu → Prop} {i : Instruction}

theorem fits_stackView {w : Width} (hw : wide = false → w ≠ .dword) (r : Gpr) :
    (stackView w r).Fits wide := by
  cases w with
  | byte | word => exact Register.fits_word r
  | dword => exact ⟨rfl, fun h => absurd rfl (hw h)⟩

theorem composed_pushOperand (hi : i.Fits wide) :
    Composed wide P (pushOperand i) fun _ _ => True := by
  have hValue : Composed wide P (pushedValue i) fun _ _ => True := by
    refine .afterCpu fun c _ => ?_
    split
    · exact .answer _
    · refine .ite (fun _ => .answer _) fun _ => ?_
      exact .afterPlace hi.dst hi.addr32 fun p hp _ => (Composed.readPlace hp _).forget
  exact hValue.next fun _ => .push _ _

theorem composed_popOperand (hi : i.Fits wide)
    (hLoad : ∀ s, i.dst = .reg (.seg s) → MayLoad wide s) :
    Composed wide P (popOperand i) fun _ _ => True := by
  refine (Composed.pop _).next fun v => ?_
  split
  · rename_i s h
    obtain ⟨hs, hc⟩ := hLoad s h
    exact .loadSegmentHeld hs hc _
  · rename_i hPlainDst
    exact .afterPlace hi.dst hi.addr32 fun dst hp hPlain => .writePlace hp (hPlain hPlainDst) _ _

theorem composed_pusha (i : Instruction) : Composed wide P (pusha i) fun _ _ => True :=
  .afterRegs fun _ => .pushList _ _

/-- The popped values are written one by one. -/
theorem Writes.setPopped {w : Width} (hw : wide = false → w ≠ .dword) (vs : List UInt32) :
    Writes wide (setPopped w · vs) := by
  have hFold (rvs : List (Gpr × UInt32)) : Writes wide fun g =>
      rvs.foldl (fun g x => if x.1 = .sp then g else g.write (stackView w x.1) x.2) g := by
    induction rvs with
    | nil => exact fun c => .refl c
    | cons rv rvs ih =>
      by_cases hr : rv.1 = .sp
      · simpa [hr] using ih
      · simpa [hr] using (Writes.write (fits_stackView hw rv.1) fun _ => rv.2).comp ih
  exact hFold _

theorem composed_popa (hi : i.Fits wide) : Composed wide P (popa i) fun _ _ => True :=
  (Composed.popList _ _ _).next fun _ => .modifyRegs (.setPopped hi.size _)

theorem composed_pushf (i : Instruction) : Composed wide P (pushf i) fun _ _ => True :=
  .afterCpu fun _ _ => .push _ _

theorem composed_popf (hi : i.Fits wide) : Composed wide P (popf i) fun _ _ => True :=
  (Composed.pop _).next fun _ => .loadFlags _ hi.size

theorem composed_copyFrames (w : Width) (n : Nat) (bp : UInt32) :
    Composed wide P (copyFrames w n bp) fun _ _ => True := by
  induction n generalizing P bp with
  | zero => exact .answer ()
  | succ n ih =>
    refine .afterCpu fun c hc => .afterReadMem (Composed.fits_stack hc _) fun v => ?_
    exact (Composed.push v w).next fun _ => ih _

theorem composed_enter (hi : i.Fits wide) : Composed wide P (enter i) fun _ _ => True := by
  refine .afterRegs fun g => (Composed.push _ _).next fun _ => .afterCpu fun c _ => ?_
  have hEnd {P : Cpu → Prop} (frame : UInt32) (v : Cpu → UInt32) : Composed wide P (do
      writeRegister (stackView i.size .bp) frame
      modifyCpu fun c => c.setStackPointer (v c)) fun _ _ => True :=
    (Composed.writeRegister (fits_stackView hi.size .bp) frame).next fun _ => .moveStack v
  refine .ite (fun _ => ?_) fun _ => hEnd _ _
  refine (composed_copyFrames _ _ _).next fun _ => (Composed.push _ _).next fun _ => ?_
  exact hEnd _ _

theorem composed_leave (hi : i.Fits wide) : Composed wide P (leave i) fun _ _ => True := by
  refine (Composed.moveStack _).next fun _ => (Composed.pop _).next fun v => ?_
  exact .writeRegister (fits_stackView hi.size .bp) v

end Derivations

end X86.Exec
