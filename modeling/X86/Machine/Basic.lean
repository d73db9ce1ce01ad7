import X86.Cpu.Memory
import X86.Device
import X86.Interrupt.Lines
import X86.Log

/-!
# The machine

A processor, a bus, devices, interrupt lines and a timer. Instructions run in `Exec`, which can stop
early: with an exception that the program can handle, or with a violation of what the machine itself
relies on.
-/

namespace X86

/-- Something that the machine relies on and a caller has broken. A machine that is only run, and
not edited from outside, never gets there. -/
inductive Violation where
  /-- A 16-bit code segment at the last 32-bit offset. -/
  | codeOffset
  /-- A timer without a period. -/
  | countdown
  /-- A selector written as if it were a general register. -/
  | segmentWrite
  /-- A word shifted by more places than it has. -/
  | shiftAmount
deriving DecidableEq, Repr

/-- Why execution stopped early. -/
inductive Stop where
  /-- The instruction raised an exception. -/
  | fault (e : Exception)
  /-- The machine is not in a state that it can run from. -/
  | violation (v : Violation)
deriving DecidableEq, Repr

/-- The state of a machine. -/
structure Machine where
  cpu : Cpu
  bus : Bus
  /-- The devices, the first one is asked first. -/
  devices : List Device := []
  /-- The pending interrupt requests. -/
  irq : IrqLines := {}
  /-- Somebody asked the machine to stop. -/
  exitRequested : Bool := false
  /-- The number of steps between timer interrupts. -/
  period : Nat := 65536
  /-- The number of steps to the next timer interrupt. -/
  countdown : Nat := 65536
  /-- The vector of line 0. -/
  masterBase : UInt8 := 0x08
  /-- The vector of line 8. -/
  slaveBase : UInt8 := 0x70
  /-- A line for each executed instruction, while tracing. -/
  trace : Option (Array String) := none
  /-- The events, while logging. -/
  log : Option (Array LogEntry) := none
deriving Inhabited

/-- A computation on the machine that can stop early. The state at the stop is kept. -/
abbrev Exec := EStateM Stop Machine

namespace Machine

/-- Changes the processor. -/
def withCpu (m : Machine) (f : Cpu → Cpu) : Machine := { m with cpu := f m.cpu }

/-- Adds an event, while logging. -/
def record (m : Machine) (e : LogEntry) : Machine := { m with log := m.log.map (·.push e) }

/-- The place that messages name. -/
def place (m : Machine) : CodePlace := { cs := m.cpu.regs.selector .cs, eip := m.cpu.regs.eip }

end Machine

namespace Exec

/-- Stops with an exception. -/
def fault {α : Type} (e : Exception) : Exec α := throw (.fault e)

/-- Stops if a check refuses. -/
def check {α : Type} (x : Except Exception α) : Exec α :=
  match x with
  | .ok a => pure a
  | .error e => fault e

/-- The processor. -/
def cpu : Exec Cpu := return (← get).cpu

/-- The registers. -/
def regs : Exec Registers := return (← get).cpu.regs

/-- The flags. -/
def flags : Exec Flags := return (← get).cpu.regs.flags

/-- Changes the processor. -/
def modifyCpu (f : Cpu → Cpu) : Exec Unit := modify (·.withCpu f)

/-- Replaces the flags. -/
def setFlags (f : Flags) : Exec Unit := modifyCpu (·.setFlags f)

/-- Writes a register. -/
def writeRegister (r : Register) (v : UInt32) : Exec Unit := modifyCpu (·.writeRegister r v)

/-- Adds an event to the log. -/
def log (e : LogEntry) : Exec Unit := modify (·.record e)

/-- Runs a computation and catches the exception that it raises; violations pass. -/
def attempt (x : Exec Unit) : Exec (Option Exception) := fun m =>
  match x m with
  | .ok _ m => .ok none m
  | .error (.fault e) m => .ok (some e) m
  | .error (.violation v) m => .error (.violation v) m

/-- Reads memory through a segment register. -/
def readMem (l : Location) (w : Width) : Exec UInt32 := fun m =>
  check (m.cpu.read m.bus l w) m

/-- Writes memory through a segment register. -/
def writeMem (l : Location) (w : Width) (v : UInt32) : Exec Unit := do
  check ((← cpu).checkAccess l w.bytes .write)
  modify fun m => { m with bus := m.cpu.storeBytes m.bus l v w.bytes }

/-- Reads an operand, cut to the width. -/
def readPlace (p : Place) (w : Width) : Exec UInt32 := fun m =>
  check (m.cpu.readPlace m.bus p w) m

/-- Writes an operand. Selectors are not written this way but by a segment load. -/
def writePlace (p : Place) (w : Width) (v : UInt32) : Exec Unit :=
  match p with
  | .reg r =>
    if r.isSegment then throw (.violation .segmentWrite)
    else writeRegister r (w.truncate v)
  | .mem l => writeMem l w v
  | .value _ | .nowhere => fault .invalidOpcode

/-- Pushes a value on the stack. The stack pointer moves only if the write succeeds. -/
def push (v : UInt32) (w : Width) : Exec Unit := do
  let c ← cpu
  let sp := wrapOffset c.stack32 (c.stackPointer - UInt32.ofNat w.bytes)
  writeMem (.of .ss sp c.stack32) w v
  modifyCpu (·.setStackPointer sp)

/-- Pops a value from the stack. -/
def pop (w : Width) : Exec UInt32 := do
  let c ← cpu
  let sp := c.stackPointer
  let v ← readMem (.of .ss sp c.stack32) w
  modifyCpu (·.setStackPointer (wrapOffset c.stack32 (sp + UInt32.ofNat w.bytes)))
  return v

end Exec

end X86
