import X86.Execute.Dispatch
import X86.Machine.Delivery
import X86.Machine.Trace

/-!
# Steps

A step executes one instruction, unless the processor waits, then moves the timer on and serves an
interrupt request. An instruction ends with the delivery of what it raised and of the single step
trap.
-/

namespace X86

/-- The processor when an instruction begins: the instruction pointer is past it, interrupts are no
longer held off. -/
def Cpu.begin (c : Cpu) (i : Instruction) : Cpu :=
  { c.jump (c.regs.eip + UInt32.ofNat i.length) with
    shadow := false
    instructions := c.instructions + 1
    cycles := c.cycles + 1 }

namespace Exec

/-- Delivers the single step trap after an instruction. -/
def singleStep : Exec Unit := do
  let _ ← deliver .debug (← cpu).snapshot

/-- Delivers what an instruction raised. A fault takes the instruction back; a trap completes it, so
a pending single step follows. -/
def raise (e : Exception) (start : Snapshot) (stepping : Bool) : Exec Unit := do
  unless e.isTrap do restore start
  let entered ← deliver e start
  if entered ∧ e.isTrap ∧ stepping then singleStep

/-- Decodes the next instruction and moves the instruction pointer past it. -/
def fetch : Exec Instruction := do
  let m ← get
  let code := m.cpu.code m.bus
  if code.overflows then throw (.violation .codeOffset)
  let i := decode m.cpu.features code
  log (.executing m.place i)
  modify (·.traceInstruction i)
  modifyCpu (·.begin i)
  return i

/-- Executes one instruction. -/
def executeNext : Exec Unit := do
  let c ← cpu
  let start := c.snapshot
  let stepping := c.regs.flags.trap
  let i ← fetch
  match ← attempt (perform i) with
  | none => if stepping then singleStep
  | some e => raise e start stepping

/-- Moves the timer on. When it runs out it starts again and raises line 0. -/
def tick : Exec Unit := do
  let m ← get
  if m.countdown = 0 then throw (.violation .countdown)
  else if m.countdown = 1 then
    modify fun m => { m with countdown := m.period, irq := m.irq.raise 0 }
  else
    modify fun m => { m with countdown := m.countdown - 1 }

/-- Takes the lowest pending line. -/
def takeLine : Exec (Option Line) := do
  let (line, irq) := (← get).irq.takeLowest
  modify fun m => { m with irq }
  return line

/-- Serves a pending line if the processor accepts interrupts. -/
def serviceLines : Exec Unit := do
  let m ← get
  if m.irq.any && m.cpu.acceptsInterrupt then
    match ← takeLine with
    | none => pure ()
    | some line =>
      modifyCpu fun c => { c with halted := false }
      let s := (← cpu).snapshot
      match ← attempt (interrupt (line.vector m.masterBase m.slaveBase) none false) with
      | none => pure ()
      | some e =>
        restore s
        let _ ← deliver e s

/-- One step. -/
def step : Exec Unit := do
  unless (← cpu).halted do executeNext
  tick
  serviceLines

/-- `n` steps, fewer if the machine dies. -/
def steps : Nat → Exec Unit
  | 0 => pure ()
  | n + 1 => do
    unless (← cpu).dead do
      step
      steps n

/-- Whether a run ends here. -/
def finished : Exec Bool := do
  let m ← get
  return m.exitRequested || m.cpu.dead

/-- Steps until the machine is dead or somebody asked it to stop, at most `fuel` times; `true` if
the run has ended. -/
def runFor : Nat → Exec Bool
  | 0 => finished
  | fuel + 1 => do
    if ← finished then return true
    else
      step
      runFor fuel

end Exec

end X86
