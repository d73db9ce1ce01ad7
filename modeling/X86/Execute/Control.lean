import X86.Execute.Stack
import X86.Machine.Interrupt

/-!
# Control transfer

Jumps, calls, returns, loops, software interrupts, and the instructions that stop or check.
-/

namespace X86.Exec

/-- The target of a near jump. -/
def nearTarget (i : Instruction) : Exec UInt32 := do
  let target ← place i i.dst
  readPlace target i.size

/-- Jumps inside the code segment. -/
def jumpNear (i : Instruction) : Exec Unit := do
  let target ← nearTarget i
  modifyCpu (·.jump target)

/-- Calls inside the code segment. -/
def callNear (i : Instruction) : Exec Unit := do
  let target ← nearTarget i
  push (← regs).eip i.size
  modifyCpu (·.jump target)

/-- The target of a far jump: a constant, or a pair in memory. -/
def farTarget (i : Instruction) : Exec (UInt16 × UInt32) :=
  match i.dst with
  | .far segment offset => return (segment, offset)
  | o => do readFar (← location i o) i.size

/-- Jumps to another code segment. -/
def jumpFarOperand (i : Instruction) : Exec Unit := do
  let (segment, offset) ← farTarget i
  jumpFar segment offset

/-- Calls another code segment. -/
def callFar (i : Instruction) : Exec Unit := do
  let (segment, offset) ← farTarget i
  let g ← regs
  push (g.selector .cs).toUInt32 i.size
  push g.eip i.size
  jumpFar segment offset

/-- Releases the bytes that a return names. -/
def release (i : Instruction) : Exec Unit :=
  match i.dst with
  | .imm16 n => modifyCpu fun c => c.setStackPointer (c.stackPointer + n.toUInt32)
  | _ => pure ()

/-- Returns inside the code segment. -/
def returnNear (i : Instruction) : Exec Unit := do
  let eip ← pop i.size
  modifyCpu (·.jump eip)
  release i

/-- Returns to another code segment. -/
def returnFar (i : Instruction) : Exec Unit := do
  let eip ← pop i.size
  let cs ← pop i.size
  jumpFar cs.toUInt16 eip
  release i

/-- Returns from an interrupt: instruction pointer, code segment, flags. -/
def iret (w : Width) : Exec Unit := do
  let eip ← pop w
  let cs ← pop w
  let f ← pop w
  jumpFar cs.toUInt16 eip
  modifyCpu (·.loadFlags f w)

/-- Jumps if a condition holds. -/
def jcc (c : Condition) (i : Instruction) : Exec Unit := do
  if c.holds (← flags) then jumpNear i

/-- Whether a loop goes on with the given count. -/
def loopTaken (op : LoopOp) (count : UInt32) (zero : Bool) : Bool :=
  match op with
  | .loop => count != 0
  | .loope => count != 0 && zero
  | .loopne => count != 0 && !zero
  | .jcxz => count == 0

/-- Counts down, except for JCXZ, and jumps by the count. -/
def loop (op : LoopOp) (i : Instruction) : Exec Unit := do
  let counter := Register.ofGpr i.addr32 .cx
  let old := (← regs).read counter
  let count := if op = .jcxz then old else counter.width.truncate (old - 1)
  unless op = .jcxz do writeRegister counter count
  if loopTaken op count (← flags).zero then jumpNear i

/-- Lets a device serve a software interrupt; `false` if none does. -/
def serveInterrupt (vector : UInt8) : Exec Bool := do
  let m ← get
  match firstAnswer m.devices fun d =>
      if d.serves m.bus.traffic vector then some d else none with
  | none => return false
  | some (n, d) =>
    modify fun m =>
      let s := d.serve vector m.cpu (m.bus.record (.service n vector))
      { m with cpu := s.cpu, bus := s.bus, exitRequested := m.exitRequested || s.exit }
    return true

/-- A software interrupt: a device serves it, or the handler is entered. -/
def int (i : Instruction) : Exec Unit :=
  match i.dst with
  | .imm8 vector => do
    unless ← serveInterrupt vector do interrupt vector none true
  | _ => fault .invalidOpcode

/-- Raises an exception if a signed index is outside the pair of bounds in memory. -/
def bound (i : Instruction) : Exec Unit := do
  let w := i.size
  let index ← readPlace (← place i i.dst) w
  let l ← location i i.src
  let lower ← readMem l w
  let upper ← readMem (l.add (UInt32.ofNat w.bytes)) w
  if w.toInt index < w.toInt lower ∨ w.toInt upper < w.toInt index then fault .boundRange

/-- Waits for an interrupt. With interrupts masked that is for ever. -/
def hlt : Exec Unit := do
  let m ← get
  check m.cpu.requirePrivilege
  if !m.cpu.regs.flags.interrupt then
    log (.haltedForEver m.place)
    modifyCpu fun c => { c with dead := true }
  modifyCpu fun c => { c with halted := true }

end X86.Exec
