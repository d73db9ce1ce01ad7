import X86.Execute.Data

/-!
# String instructions

A string instruction works on one element at the index registers and moves them by its size, down
if the direction flag is set. Under a repeat marker it does so once for each count.
-/

namespace X86

/-- What the direction flag adds to an index register after an element. -/
def stringStep (f : Flags) (w : Width) : UInt32 :=
  if f.direction then 0 - UInt32.ofNat w.bytes else UInt32.ofNat w.bytes

/-- The source of a string instruction; its segment can be overridden. -/
def Cpu.stringSource (c : Cpu) (i : Instruction) : Location :=
  .of (i.segment.getD .ds) (c.regs.read (.ofGpr i.addr32 .si)) i.addr32

/-- The destination of a string instruction; its segment is always ES. -/
def Cpu.stringTarget (c : Cpu) (i : Instruction) : Location :=
  .of .es (c.regs.read (.ofGpr i.addr32 .di)) i.addr32

namespace Exec

/-- Moves an index register past an element. -/
def advance (i : Instruction) (r : Gpr) : Exec Unit :=
  modifyRegs fun g =>
    let view := Register.ofGpr i.addr32 r
    g.write view (g.read view + stringStep g.flags i.size)

/-- Sets the flags of a comparison of two elements. -/
def compareElements (w : Width) (a b : UInt32) : Exec Unit := do
  setFlags (Alu.sub w a b (← flags)).2

/-- One element of a string instruction. -/
def stringElement (op : StringOp) (i : Instruction) : Exec Unit := do
  let c ← cpu
  let w := i.size
  let source := c.stringSource i
  let target := c.stringTarget i
  let acc := Register.accumulator w
  match op with
  | .movs =>
    let v ← readMem source w
    writeMem target w v
    advance i .si
    advance i .di
  | .cmps =>
    let a ← readMem source w
    let b ← readMem target w
    compareElements w a b
    advance i .si
    advance i .di
  | .scas =>
    let b ← readMem target w
    compareElements w (c.regs.read acc) b
    advance i .di
  | .lods =>
    let v ← readMem source w
    writeRegister acc v
    advance i .si
  | .stos =>
    writeMem target w (c.regs.read acc)
    advance i .di
  | .ins =>
    check c.requireIo
    let v ← input (c.regs.word .dx) w
    writeMem target w v
    advance i .di
  | .outs =>
    check c.requireIo
    let v ← readMem source w
    output (c.regs.word .dx) w v
    advance i .si

/-- Whether the zero flag ends a repeat after an element. -/
def repeatEnds (mode : RepeatMode) (zero : Bool) : Bool :=
  match mode with
  | .rep => false
  | .repe => !zero
  | .repne => zero

/-- The register that counts repeats. -/
def repeatCounter (i : Instruction) : Register := .ofGpr i.addr32 .cx

/-- Does an element `n` times, unless the zero flag ends the repeat. The counter shows the progress
after each element, so an instruction that faults can be taken up again. -/
def repeatElement (mode : RepeatMode) (element : Exec Unit) (counter : Register) : Nat → Exec Unit
  | 0 => pure ()
  | n + 1 => do
    element
    writeRegister counter (UInt32.ofNat n)
    modifyCpu fun c => { c with cycles := c.cycles + 1 }
    unless repeatEnds mode (← flags).zero do repeatElement mode element counter n

/-- Repeats an element as often as the counter says at the start. -/
def repeated (mode : RepeatMode) (element : Exec Unit) (i : Instruction) : Exec Unit := do
  let counter := repeatCounter i
  let n := (← regs).read counter
  repeatElement mode element counter n.toNat

end Exec

end X86
