import X86.Encoding.Decode
import X86.Exception
import X86.Model
import X86.Register.File
import X86.Segment.Descriptor
import X86.Segment.Table

/-!
# The processor state

Registers, descriptor caches, table registers, and the few bits of state that instructions leave for
the machine around them.
-/

namespace X86

/-- The state of the processor. -/
structure Cpu where
  /-- The generation. -/
  model : Model := default
  /-- The register file. -/
  regs : Registers := {}
  /-- The descriptor behind each segment register. -/
  caches : SegMap Descriptor := .replicate (Descriptor.realMode 0)
  /-- The global descriptor table. -/
  gdtr : TableRegister := {}
  /-- The interrupt table. -/
  idtr : TableRegister := .realModeVectors
  /-- The selector of the local descriptor table. -/
  ldtr : UInt16 := 0
  /-- The selector of the task state. -/
  tr : UInt16 := 0
  /-- The processor waits for an interrupt. -/
  halted : Bool := false
  /-- Interrupts are held off until one more instruction has completed. -/
  shadow : Bool := false
  /-- Nothing can wake the processor any more. -/
  dead : Bool := false
  /-- The number of instructions started. -/
  instructions : Nat := 0
  /-- The number of instructions and further string elements. -/
  cycles : Nat := 0
deriving Inhabited

/-- The part of the state that a fault takes back. -/
structure Snapshot where
  cs : UInt16
  eip : UInt32
  esp : UInt32
  csCache : Descriptor
deriving DecidableEq, Repr, Inhabited

/-- The bits that count in an offset of 16 or 32 bits. -/
def offsetMask (wide : Bool) : UInt32 := if wide then 0xFFFFFFFF else 0xFFFF

/-- Wraps an offset. -/
def wrapOffset (wide : Bool) (v : UInt32) : UInt32 := v &&& offsetMask wide

theorem wrapOffset_le (v : UInt32) : wrapOffset false v ≤ 0xFFFF := UInt32.and_le_right

theorem toNat_wrapOffset (wide : Bool) (v : UInt32) :
    (wrapOffset wide v).toNat = v.toNat % (if wide then Width.dword else .word).values := by
  cases wide
  · exact Width.toNat_truncate .word v
  · exact Width.toNat_truncate .dword v

namespace Cpu

/-- Bit 0 of CR0: protected mode. -/
def protectionBit : UInt32 := 0x1

/-- Bit 3 of CR0: a task switch has happened. -/
def taskSwitchedBit : UInt32 := 0x8

/-- Bit 4 of CR0: a 32-bit coprocessor is present. -/
def extensionBit : UInt32 := 0x10

/-- Bit 31 of CR0: paging. -/
def pagingBit : UInt32 := 0x80000000

/-- The processor after a reset. -/
def reset (model : Model) : Cpu :=
  if model.features.wideRegisters then
    { model, regs := ({} : Registers).writeControl .zero extensionBit }
  else { model }

/-- What the model can do. -/
def features (c : Cpu) : Features := c.model.features

/-- Control register 0. -/
def cr0 (c : Cpu) : UInt32 := c.regs.readControl .zero

/-- Replaces control register 0. -/
def setCr0 (c : Cpu) (v : UInt32) : Cpu :=
  { c with regs := c.regs.writeControl .zero v }

/-- Whether segment registers hold selectors of a descriptor table. -/
def protectedMode (c : Cpu) : Bool := bitAt c.cr0 0

/-- The privilege level of the running code; real mode code has every privilege. -/
def cpl (c : Cpu) : Ring :=
  if c.protectedMode then Ring.ofLowBits (c.regs.selector .cs).toNat else .zero

/-- Code runs with 32-bit operands unless a prefix says otherwise. -/
def code32 (c : Cpu) : Bool := c.caches.cs.big

/-- The stack is addressed by ESP rather than SP. -/
def stack32 (c : Cpu) : Bool := c.caches.ss.big

/-- The linear address of a segment. -/
def segmentBase (c : Cpu) (s : SegReg) : UInt32 := (c.caches.get s).base

/-- Replaces the flags. -/
def setFlags (c : Cpu) (f : Flags) : Cpu := { c with regs := { c.regs with flags := f } }

/-- Replaces the instruction pointer, without wrapping it. -/
def setEip (c : Cpu) (v : UInt32) : Cpu := { c with regs := { c.regs with eip := v } }

/-- Moves the instruction pointer inside the code segment. -/
def jump (c : Cpu) (v : UInt32) : Cpu := c.setEip (wrapOffset c.code32 v)

/-- Writes a register. A selector written this way does not change its descriptor. -/
def writeRegister (c : Cpu) (r : Register) (v : UInt32) : Cpu :=
  { c with regs := c.regs.write r v }

/-- Loads a segment register as real mode does. -/
def loadRealSegment (c : Cpu) (s : SegReg) (selector : UInt16) : Cpu :=
  { c with
    regs := c.regs.setSelector s selector
    caches := c.caches.set s (.realMode selector) }

/-- Loads a segment register with a descriptor. -/
def loadCache (c : Cpu) (s : SegReg) (selector : UInt16) (d : Descriptor) : Cpu :=
  { c with regs := c.regs.setSelector s selector, caches := c.caches.set s d }

/-- The state to go back to if the instruction at hand faults. -/
def snapshot (c : Cpu) : Snapshot :=
  { cs := c.regs.selector .cs, eip := c.regs.eip, esp := c.regs.gprs.esp, csCache := c.caches.cs }

/-- Goes back to a snapshot. -/
def restore (c : Cpu) (s : Snapshot) : Cpu :=
  { c with
    regs :=
      { c.regs.setSelector .cs s.cs with
        eip := s.eip
        gprs := { c.regs.gprs with esp := s.esp } }
    caches := { c.caches with cs := s.csCache } }

/-- The code from the next instruction on. -/
def code (c : Cpu) (b : Bus) : Code := Code.ofBus b (c.segmentBase .cs) c.regs.eip c.code32

/-- The next instruction. -/
def decodeNext (c : Cpu) (b : Bus) : Instruction := decode c.features (c.code b)

/-- Privileged instructions need ring 0. -/
def requirePrivilege (c : Cpu) : Except Exception Unit :=
  if c.cpl = .zero then .ok () else .error (.generalProtection 0)

/-- Ports and the interrupt flag are open to the rings up to the I/O privilege level. -/
def requireIo (c : Cpu) : Except Exception Unit :=
  if c.protectedMode && decide (c.regs.flags.iopl < c.cpl) then .error (.generalProtection 0)
  else .ok ()

/-- Whether a maskable interrupt would be served now. -/
def acceptsInterrupt (c : Cpu) : Bool := c.regs.flags.interrupt && !c.shadow

end Cpu

end X86
