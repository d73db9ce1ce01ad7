import X86.Machine.Step
import X86.Proofs.Encoding.WellFormed

/-!
# Going back to a snapshot

A snapshot holds the code segment, the instruction pointer and the stack pointer, and nothing of
memory.

* `Cpu.visible`: what programs can see of the processor.
* `Cpu.eq_of_visible`: what depends on nothing else.
* `Evolves.visible_restore_eq`: going back to a snapshot forgets every change that it takes back.
* `Exec.raise_fault`: a fault goes back before it is delivered.
-/

namespace X86

/-- What programs can see of the processor. -/
structure VisibleCpu where
  model : Model
  /-- The general registers, selectors, instruction pointer, flags, control and debug registers. -/
  regs : Registers
  caches : SegMap Descriptor
  gdtr : TableRegister
  idtr : TableRegister
  ldtr : UInt16
  tr : UInt16

namespace Cpu

/-- What programs can see of the processor. -/
def visible (c : Cpu) : VisibleCpu :=
  { model := c.model, regs := c.regs, caches := c.caches, gdtr := c.gdtr, idtr := c.idtr,
    ldtr := c.ldtr, tr := c.tr }

/-- A processor with this visible part, and with nothing counted or pending. -/
def ofVisible (v : VisibleCpu) : Cpu :=
  { model := v.model, regs := v.regs, caches := v.caches, gdtr := v.gdtr, idtr := v.idtr,
    ldtr := v.ldtr, tr := v.tr }

/-- A function of the visible part takes equal values. -/
theorem eq_of_visible {α : Type} {f : Cpu → α} (hf : ∀ c, f (ofVisible c.visible) = f c)
    {c c' : Cpu} (h : c.visible = c'.visible) : f c = f c' := by
  rw [← hf c, h, hf c']

/-- The stack pointer is part of a snapshot. -/
theorem restore_setStackPointer (c : Cpu) (v : UInt32) (s : Snapshot) :
    (c.setStackPointer v).restore s = c.restore s := by
  rw [setStackPointer]
  cases c.stack32 <;> rfl

theorem restore_begin_snapshot (c : Cpu) (i : Instruction) :
    ((c.begin i).restore c.snapshot).visible = c.visible := rfl

end Cpu

/-- Only the code segment is loaded by a change that a snapshot takes back. -/
theorem eq_cs_of_retracted {K : ChangeKind → Prop} {s : SegReg}
    (h : Exec.Retracted K (.ofSegment s)) : s = .cs := by
  cases s <;> first | rfl | simp [Exec.Retracted, ChangeKind.ofSegment] at h

/-- Going back to a snapshot forgets every change that it takes back. -/
theorem Evolves.visible_restore_eq {K : ChangeKind → Prop} {m m' : Machine}
    (h : Evolves (Exec.Retracted K) m m') (s : Snapshot) :
    (m'.cpu.restore s).visible = (m.cpu.restore s).visible := by
  refine Evolves.eq_of_change (fun m => (m.cpu.restore s).visible) ?_ h
  intro m m' hStep
  cases hStep with
  | store | note | jump | count | exchange => rfl
  | stack v => exact congrArg Cpu.visible (m.cpu.restore_setStackPointer v s)
  | realSegment s' selector hK =>
    cases eq_cs_of_retracted hK
    rfl
  | tableSegment s' selector d hK =>
    cases eq_cs_of_retracted hK
    rfl
  | register r v hK | flags f hK | nullSegment s' selector hK | hold hK | control n v hK
  | debug n v hK | table t r hK | selector s' v hK | halt hK | die hK | serve n d v hK
  | restore s' hK => simp [Exec.Retracted] at hK

namespace Exec

/-- An instruction that raises a fault is taken back before the fault is delivered. -/
theorem raise_fault {e : Exception} (he : e.isTrap = false) (start : Snapshot) (stepping : Bool)
    (m : Machine) :
    raise e start stepping m =
      (deliver e start >>= fun _ => pure ()) (m.withCpu (·.restore start)) := by
  simp only [raise, he, Bool.false_eq_true, false_and, and_false, if_false]
  exact bind_of_ok (modifyCpu_apply _ m)

end Exec

end X86
