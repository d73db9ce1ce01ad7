import X86.Cpu.Basic

/-!
# Flags in memory

The flags as they are pushed on the stack, and as they are loaded from there under the rules of
privilege.
-/

namespace X86.Cpu

/-- The flags as the processor pushes them. -/
def flagsImage (c : Cpu) : UInt32 :=
  let v := { c.regs.flags with resume := false, vm := false }.toUInt32
  let v := if c.features.flagsHighNibbleSet then v ||| 0xF000 else v
  if c.features.wideRegisters then v else v &&& 0xFFFF

/-- Takes from `new` the flags that the running code may change, and keeps the others: the virtual
8086 flags always, the flags that came with wide registers on a model without them, and in protected
mode the I/O privilege level outside ring 0 and the interrupt flag above that level. -/
def permittedFlags (c : Cpu) (new : Flags) : Flags :=
  let old := c.regs.flags
  let narrow := !c.features.wideRegisters
  let keepLevel := narrow || decide (c.cpl ≠ .zero)
  let keepInterrupt := c.protectedMode && decide (old.iopl < c.cpl)
  { new with
    vm := old.vm
    vif := old.vif
    vip := old.vip
    iopl := if keepLevel then old.iopl else new.iopl
    nestedTask := if narrow then old.nestedTask else new.nestedTask
    interrupt := if keepInterrupt then old.interrupt else new.interrupt }

/-- Loads the flags from an image of width `w`. -/
def loadFlags (c : Cpu) (v : UInt32) (w : Width) : Cpu :=
  let new := if w = .dword then c.regs.flags.load32 v else c.regs.flags.load16 v
  c.setFlags (c.permittedFlags new)

end X86.Cpu
