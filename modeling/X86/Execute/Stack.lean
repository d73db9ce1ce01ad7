import X86.Cpu.Flags
import X86.Execute.Data

/-!
# Stack instructions

Pushes and pops of registers, flags and memory, and the stack frames of procedures.
-/

namespace X86.Exec

/-- The value that a push stores. Where the model says so, PUSH SP stores SP after the push. -/
def pushedValue (i : Instruction) : Exec UInt32 := do
  let c ← cpu
  match i.dst with
  | .reg (.seg s) => return (c.regs.selector s).toUInt32
  | o =>
    if o = .reg (.word .sp) ∧ c.features.pushSpDecremented then
      return (c.regs.word .sp - 2).toUInt32
    else
      let p ← place i o
      readPlace p i.size

/-- Pushes an operand. -/
def pushOperand (i : Instruction) : Exec Unit := do
  let v ← pushedValue i
  push v i.size

/-- Pops an operand. A memory operand is addressed after the stack pointer has moved. -/
def popOperand (i : Instruction) : Exec Unit := do
  let v ← pop i.size
  match i.dst with
  | .reg (.seg s) => loadSegmentHeld s v.toUInt16
  | o => do
    let dst ← place i o
    writePlace dst i.size v

/-- The view of a general register that the stack instructions of width `w` use. -/
def stackView (w : Width) (r : Gpr) : Register :=
  match w with
  | .dword => .dword r
  | _ => .word r

/-- Pushes values in order. -/
def pushList (w : Width) : List UInt32 → Exec Unit
  | [] => pure ()
  | v :: rest => do
    push v w
    pushList w rest

/-- Pops `n` values; the first one popped comes last. -/
def popList (w : Width) : Nat → List UInt32 → Exec (List UInt32)
  | 0, vs => return vs
  | n + 1, vs => do
    let v ← pop w
    popList w n (v :: vs)

/-- Pushes all general registers, SP with the value that it had before. -/
def pusha (i : Instruction) : Exec Unit := do
  let g ← regs
  pushList i.size (Gpr.all.map fun r => g.read (stackView i.size r))

/-- Writes popped values to the general registers; the one for SP is dropped. -/
def setPopped (w : Width) (g : Registers) (vs : List UInt32) : Registers :=
  (Gpr.all.zip vs).foldl
    (fun g (r, v) => if r = .sp then g else g.write (stackView w r) v) g

/-- Pops all general registers except SP. Nothing is written until all pops have succeeded. -/
def popa (i : Instruction) : Exec Unit := do
  let vs ← popList i.size 8 []
  modifyRegs (setPopped i.size · vs)

/-- Pushes the flags. -/
def pushf (i : Instruction) : Exec Unit := do
  push (← cpu).flagsImage i.size

/-- Pops the flags. -/
def popf (i : Instruction) : Exec Unit := do
  let v ← pop i.size
  modifyCpu (·.loadFlags v i.size)

/-- Copies `n` frame pointers of outer procedures; `bp` is the one before the first of them. -/
def copyFrames (w : Width) : Nat → UInt32 → Exec Unit
  | 0, _ => pure ()
  | n + 1, bp => do
    let bp := bp - UInt32.ofNat w.bytes
    let v ← readMem (.of .ss bp (← cpu).stack32) w
    push v w
    copyFrames w n bp

/-- Makes a stack frame: pushes BP, copies the frame pointers of outer procedures and the new one,
and reserves room. -/
def enter (i : Instruction) : Exec Unit := do
  let size := match i.dst with
    | .imm16 v => v.toUInt32
    | _ => 0
  let level := match i.src with
    | .imm8 v => v.toNat % 32
    | _ => 0
  let view := stackView i.size .bp
  let bp := (← regs).read view
  push bp i.size
  let frame := (← cpu).stackPointer
  if level > 0 then
    copyFrames i.size (level - 1) bp
    push frame i.size
  writeRegister view frame
  modifyCpu fun c => c.setStackPointer (c.stackPointer - size)

/-- Removes a stack frame. -/
def leave (i : Instruction) : Exec Unit := do
  modifyCpu fun c => c.setStackPointer c.regs.gprs.ebp
  let v ← pop i.size
  writeRegister (stackView i.size .bp) v

end X86.Exec
