import Mathlib.Logic.Relation
import X86.Cpu.Flags
import X86.Execute.System
import X86.Machine.Interrupt

/-!
# Moves of the processor

`Cpu.Move wide` lists what can happen to the processor while a machine runs, with the values that a
move can write; `wide` says whether the model has 32-bit registers. A narrow model loads segments as
real mode does, and writes neither a whole register nor a system register. A code segment is loaded
together with the instruction pointer, so that an offset beyond 64 KiB never meets a 16-bit segment.

What every move keeps, every run keeps: an invariant is proved by one case analysis over the moves.
-/

namespace X86

/-! ### What a register write keeps -/

namespace Registers

variable (g : Registers) (r : Register) (v : UInt32)

theorem control_write : (g.write r v).control = g.control := by cases r <;> rfl

theorem flags_write : (g.write r v).flags = g.flags := by cases r <;> rfl

theorem eip_write : (g.write r v).eip = g.eip := by cases r <;> rfl

theorem truncate_accumulator (w : Width) :
    w.truncate (g.read (.accumulator w)) = g.read (.accumulator w) := by
  have hWidth : (Register.accumulator w).width = w := by cases w <;> rfl
  have hFits := g.truncate_read (.accumulator w)
  rwa [hWidth] at hFits

variable {r}

theorem selectors_write (hr : r.isSegment = false) : (g.write r v).selectors = g.selectors := by
  cases r with
  | seg s => cases hr
  | _ => rfl

end Registers

/-! ### Moves -/

/-- The flags that no status result touches: those of the system. -/
structure Flags.SameSystem (f g : Flags) : Prop where
  iopl : f.iopl = g.iopl
  nestedTask : f.nestedTask = g.nestedTask
  resume : f.resume = g.resume
  vm : f.vm = g.vm
  vif : f.vif = g.vif
  vip : f.vip = g.vip

theorem Flags.SameSystem.refl (f : Flags) : f.SameSystem f := ⟨rfl, rfl, rfl, rfl, rfl, rfl⟩

theorem Flags.SameSystem.trans {f g h : Flags} (hf : f.SameSystem g) (hg : g.SameSystem h) :
    f.SameSystem h :=
  ⟨hf.iopl.trans hg.iopl, hf.nestedTask.trans hg.nestedTask, hf.resume.trans hg.resume,
    hf.vm.trans hg.vm, hf.vif.trans hg.vif, hf.vip.trans hg.vip⟩

/-- A snapshot that a processor of this width can go back to. -/
structure Snapshot.Fits (wide : Bool) (s : Snapshot) : Prop where
  eip : s.csCache.big = true ∨ s.eip ≤ 0xFFFF
  narrow : wide = false → s.csCache = .realMode s.cs ∧ s.esp ≤ 0xFFFF

/-- The register exists on a model of this width, and is no selector. -/
structure Register.Fits (wide : Bool) (r : Register) : Prop where
  general : r.isSegment = false
  narrow : wide = false → r.width ≠ .dword

namespace Register

variable {wide : Bool}

theorem fits_byte (r : ByteReg) : (byte r).Fits wide := ⟨rfl, fun _ h => by cases h⟩

theorem fits_word (r : Gpr) : (word r).Fits wide := ⟨rfl, fun _ h => by cases h⟩

theorem fits_dword (hw : wide = true) (r : Gpr) : (dword r).Fits wide :=
  ⟨rfl, fun h => absurd (h.symm.trans hw) Bool.false_ne_true⟩

theorem fits_ofGpr {addr32 : Bool} (ha : wide = false → addr32 = false) (r : Gpr) :
    (ofGpr addr32 r).Fits wide := by
  cases addr32 with
  | false => exact fits_word r
  | true => exact fits_dword (eq_true_of_ne_false fun hw => Bool.false_ne_true (ha hw).symm) r

theorem fits_accumulator {w : Width} (hw : wide = false → w ≠ .dword) :
    (accumulator w).Fits wide := by
  cases w with
  | byte => exact fits_byte .al
  | word => exact fits_word .ax
  | dword => exact ⟨rfl, fun h => absurd rfl (hw h)⟩

end Register

/-- Only a model with 32-bit registers has the last two segment registers. -/
@[simp] def SegReg.Fits (wide : Bool) (s : SegReg) : Prop := s = .fs ∨ s = .gs → wide = true

namespace Cpu

/-- A single move of the processor. -/
inductive Move (wide : Bool) : Cpu → Cpu → Prop where
  | activity (c : Cpu) (halted shadow dead : Bool) (instructions cycles : Nat) :
    Move wide c { c with halted, shadow, dead, instructions, cycles }
  | stack (c : Cpu) (v : UInt32) : Move wide c (c.setStackPointer v)
  | jump (c : Cpu) (v : UInt32) : Move wide c (c.jump v)
  | register (c : Cpu) (r : Register) (v : UInt32) (hr : r.Fits wide) :
    Move wide c (c.writeRegister r v)
  | status (c : Cpu) (f : Flags) (hf : f.SameSystem c.regs.flags) : Move wide c (c.setFlags f)
  | loadFlags (c : Cpu) (v : UInt32) (w : Width) (hw : wide = false → w ≠ .dword) :
    Move wide c (c.loadFlags v w)
  | handlerFlags (c : Cpu) (masks : Bool) (hw : wide = true) :
    Move wide c (c.setFlags (handlerFlags masks c.regs.flags))
  | realSegment (c : Cpu) (s : SegReg) (selector : UInt16) (hp : c.protectedMode = false)
    (hs : s.Fits wide) (hc : s = .cs → wide = false) : Move wide c (c.loadRealSegment s selector)
  | nullSegment (c : Cpu) (s : SegReg) (selector : UInt16) (hp : c.protectedMode = true)
    (hs : s ≠ .ss ∧ s ≠ .cs) : Move wide c (c.loadCache s selector {})
  | tableSegment (c : Cpu) (s : SegReg) (selector : UInt16) (d : Descriptor)
    (hp : c.protectedMode = true) (hs : s ≠ .cs) (hd : d.suits s = true)
    (hd' : d.isPresent = true) : Move wide c (c.loadCache s selector d.markAccessed)
  | realFar (c : Cpu) (selector : UInt16) (v : UInt32) (hp : c.protectedMode = false) :
    Move wide c ((c.loadRealSegment .cs selector).jump v)
  | tableFar (c : Cpu) (selector : UInt16) (d : Descriptor) (v : UInt32)
    (hp : c.protectedMode = true) (hd : d.suits .cs = true) (hd' : d.isPresent = true) :
    Move wide c ((c.loadCache .cs selector d.markAccessed).jump v)
  | control (c : Cpu) (n : ControlReg) (v : UInt32) (hw : wide = true) :
    Move wide c { c with regs := c.regs.writeControl n v }
  | debug (c : Cpu) (n : DebugReg) (v : UInt32) (hw : wide = true) :
    Move wide c { c with regs := c.regs.writeDebug n v }
  | table (c : Cpu) (t : SystemTable) (r : TableRegister) (hw : wide = true) :
    Move wide c (c.setTable t r)
  | selector (c : Cpu) (s : SystemSegment) (v : UInt16) (hw : wide = true) :
    Move wide c (c.setSystemSelector s v)
  | restore (c : Cpu) (s : Snapshot) (hs : s.Fits wide) : Move wide c (c.restore s)

/-- Any number of moves. -/
def Moves (wide : Bool) : Cpu → Cpu → Prop := Relation.ReflTransGen (Move wide)

namespace Moves

variable {wide : Bool} {c c₁ c' : Cpu}

theorem refl (c : Cpu) : Moves wide c c := Relation.ReflTransGen.refl

theorem single (h : Move wide c c') : Moves wide c c' := Relation.ReflTransGen.single h

theorem trans (h : Moves wide c c₁) (h' : Moves wide c₁ c') : Moves wide c c' :=
  Relation.ReflTransGen.trans h h'

/-- What every move keeps, a run of moves keeps. -/
theorem induct {I : Cpu → Prop} (hStep : ∀ {c c'}, Move wide c c' → I c → I c')
    (h : Moves wide c c') (hc : I c) : I c' := by
  induction h with
  | refl => exact hc
  | tail _ hLast ih => exact hStep hLast ih

theorem activity (c : Cpu) (halted shadow dead : Bool) (instructions cycles : Nat) :
    Moves wide c { c with halted, shadow, dead, instructions, cycles } :=
  single (.activity c halted shadow dead instructions cycles)

end Moves

end Cpu

end X86
