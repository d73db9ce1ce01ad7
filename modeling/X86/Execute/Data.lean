import X86.Execute.Arithmetic
import X86.Machine.Port
import X86.Machine.Segment

/-!
# Data movement

Copies between registers, memory, segment registers and ports, and the instructions that write
single flags.
-/

namespace X86.Exec

/-- Holds interrupts off until one more instruction has completed. -/
def holdInterrupts : Exec Unit := modifyCpu fun c => { c with shadow := true }

/-- Loads a segment register for an instruction; a new stack segment holds interrupts off. -/
def loadSegmentHeld (s : SegReg) (selector : UInt16) : Exec Unit := do
  loadSegment s selector
  if s = .ss then holdInterrupts

/-- Replaces CR0. The coprocessor bit stays set. -/
def setCr0 (v : UInt32) : Exec Unit := do
  let m ← get
  let old := m.cpu.cr0
  let v := v ||| Cpu.extensionBit
  if (old ^^^ v) &&& Cpu.protectionBit ≠ 0 then
    log (.modeChanged (v &&& Cpu.protectionBit ≠ 0) m.place)
  if v &&& Cpu.pagingBit ≠ 0 ∧ old &&& Cpu.pagingBit = 0 then log .pagingIgnored
  modifyCpu (·.setCr0 v)

/-- Moves between a general and a control or debug register. -/
def movSpecial (i : Instruction) : Exec Unit := do
  check (← cpu).requirePrivilege
  let g ← regs
  match i.dst, i.src with
  | .control n, .reg (.dword r) =>
    if n = ControlReg.zero then setCr0 (g.dword r)
    else modifyRegs (·.writeControl n (g.dword r))
  | .debug n, .reg (.dword r) => modifyRegs (·.writeDebug n (g.dword r))
  | .reg (.dword r), .control n => modifyRegs (·.setDword r (g.readControl n))
  | .reg (.dword r), .debug n => modifyRegs (·.setDword r (g.readDebug n))
  | _, _ => fault .invalidOpcode

/-- A copy between general registers, memory and constants. -/
def movPlain (i : Instruction) : Exec Unit := do
  let src ← place i i.src
  let dst ← place i i.dst
  let v ← readPlace src i.size
  writePlace dst i.size v

/-- A copy. The operands say whether a segment, control or debug register takes part. -/
def mov (i : Instruction) : Exec Unit :=
  match i.dst, i.src with
  | .control _, _ | .debug _, _ | _, .control _ | _, .debug _ => movSpecial i
  | .reg (.seg s), src => do
    let src ← place i src
    let selector ← readPlace src .word
    loadSegmentHeld s selector.toUInt16
  | dst, .reg (.seg s) => do
    let dst ← place i dst
    writePlace dst .word ((← regs).selector s).toUInt32
  | _, _ => movPlain i

/-- A copy to a wider register. -/
def movExtend (signed : Bool) (i : Instruction) : Exec Unit := do
  let narrow := i.src.width?.getD .byte
  let src ← place i i.src
  let dst ← place i i.dst
  let v ← readPlace src narrow
  writePlace dst i.size (if signed then narrow.signExtend v else v)

/-- An exchange. -/
def xchg (i : Instruction) : Exec Unit := do
  let dst ← place i i.dst
  let src ← place i i.src
  let a ← readPlace dst i.size
  let b ← readPlace src i.size
  writePlace dst i.size b
  writePlace src i.size a

/-- The location of a memory operand; anything else is refused. -/
def location (i : Instruction) (o : Operand) : Exec Location := do
  match ← place i o with
  | .mem l => return l
  | _ => fault .invalidOpcode

/-- Stores the offset that an address computes. -/
def lea (i : Instruction) : Exec Unit := do
  let dst ← place i i.dst
  let l ← location i i.src
  writePlace dst i.size l.offset

/-- The offset at a location and the selector behind it. -/
def readFar (l : Location) (w : Width) : Exec (UInt16 × UInt32) := do
  let offset ← readMem l w
  let selector ← readMem (l.add (UInt32.ofNat w.bytes)) .word
  return (selector.toUInt16, offset)

/-- Loads a segment register and a general register. -/
def loadFar (s : SegReg) (i : Instruction) : Exec Unit := do
  let l ← location i i.src
  let (selector, offset) ← readFar l i.size
  loadSegment s selector
  let dst ← place i i.dst
  writePlace dst i.size offset

/-- Replaces AL by the byte at BX plus AL. -/
def xlat (i : Instruction) : Exec Unit := do
  let g ← regs
  let start := g.read (.ofGpr i.addr32 .bx)
  let l := Location.of (i.segment.getD .ds) (start + (g.byte .al).toUInt32) i.addr32
  let v ← readMem l .byte
  modifyRegs (·.setByte .al v.toUInt8)

/-- Copies the low flags to AH. -/
def lahf : Exec Unit := modifyRegs fun g => g.setByte .ah g.flags.toUInt16.toUInt8

/-- Loads the status flags from AH. -/
def sahf : Exec Unit := do
  let g ← regs
  setFlags (g.flags.loadStatus (g.byte .ah))

/-- The flags after a flag instruction. -/
def changeFlag (op : FlagOp) (f : Flags) : Flags :=
  match op with
  | .clc => { f with carry := false }
  | .stc => { f with carry := true }
  | .cmc => { f with carry := !f.carry }
  | .cld => { f with direction := false }
  | .std => { f with direction := true }
  | .cli => { f with interrupt := false }
  | .sti => { f with interrupt := true }

/-- Writes one flag. The interrupt flag needs I/O privilege; switching it on holds interrupts off
for one more instruction. -/
def flag (op : FlagOp) : Exec Unit := do
  let c ← cpu
  if op = .cli ∨ op = .sti then check c.requireIo
  if op = .sti ∧ !c.regs.flags.interrupt then holdInterrupts
  setFlags (changeFlag op c.regs.flags)

/-- The port that an operand names. -/
def port (i : Instruction) (o : Operand) : Exec UInt16 := do
  let p ← place i o
  return (← readPlace p .word).toUInt16

/-- Reads a port. -/
def inputPort (i : Instruction) : Exec Unit := do
  check (← cpu).requireIo
  let n ← port i i.src
  let v ← input n i.size
  let dst ← place i i.dst
  writePlace dst i.size v

/-- Writes a port. -/
def outputPort (i : Instruction) : Exec Unit := do
  check (← cpu).requireIo
  let n ← port i i.dst
  let src ← place i i.src
  let v ← readPlace src i.size
  output n i.size v

/-- Sets a byte to a condition. -/
def setcc (c : Condition) (i : Instruction) : Exec Unit := do
  let dst ← place i i.dst
  writePlace dst .byte (c.holds (← flags)).toUInt32

/-- Fills AL with the carry flag. -/
def salc : Exec Unit := modifyRegs fun g => g.setByte .al (if g.flags.carry then 0xFF else 0)

end X86.Exec
