import X86.Cpu.Flags
import X86.Machine.Segment
import X86.Segment.Gate

/-!
# Interrupt entry

Enters the handler of a vector. In real mode the handler is a far pointer in the vector table; in
protected mode it is a gate of the interrupt table, which can refuse.
-/

namespace X86

/-- The error code of a bad gate: the offset of its entry with the table bit set. -/
def gateErrorCode (vector : UInt8) : UInt16 := (vector.toUInt16 <<< 3) + 2

/-- An interrupt or trap gate that lets the interrupt pass. -/
structure OpenGate where
  selector : UInt16
  offset : UInt32
  /-- The frame is pushed in double words. -/
  wide : Bool
  /-- The handler starts with interrupts masked. -/
  masks : Bool
deriving DecidableEq, Repr

namespace Cpu

/-- The gate of a vector. It must be inside the table, of a kind that is modelled, open to the
caller of a software interrupt, and present. -/
def openGate (c : Cpu) (b : Bus) (vector : UInt8) (software : Bool) :
    Except Exception OpenGate :=
  let code := gateErrorCode vector
  match c.idtr.entryAddress? (vector.toUInt32 <<< 3) with
  | none => .error (.generalProtection code)
  | some entry =>
    let g := Gate.ofBytes fun i => b.read8 (entry + UInt32.ofNat i)
    match g.kind with
    | none | some .task => .error (.generalProtection code)
    | some kind =>
      if software && decide (g.dpl.toNat < c.cpl.val) then .error (.generalProtection code)
      else if !g.present then .error (.notPresent code)
      else
        .ok
          { selector := g.selector, offset := g.offset, wide := kind.isWide
            masks := kind.masksInterrupts }

/-- The flags at the start of a real mode handler. -/
def realHandlerFlags (f : Flags) : Flags := { f with interrupt := false, trap := false }

/-- The flags at the start of a protected mode handler. -/
def handlerFlags (masks : Bool) (f : Flags) : Flags :=
  { f with
    trap := false
    nestedTask := false
    resume := false
    interrupt := !masks && f.interrupt }

end Cpu

namespace Exec

/-- Enters a handler through the real mode vector table. -/
def interruptReal (vector : UInt8) : Exec Unit := do
  let m ← get
  let c := m.cpu
  if vector.toNat * 4 + 3 > c.idtr.limit.toNat then
    fault (.generalProtection 0)
  else
    let target := m.bus.readVector c.idtr.base vector
    push c.flagsImage .word
    push (c.regs.selector .cs).toUInt32 .word
    push c.regs.ip.toUInt32 .word
    modifyCpu fun c => c.setFlags (Cpu.realHandlerFlags c.regs.flags)
    modifyCpu fun c => (c.loadRealSegment .cs target.segment).setEip target.offset.toUInt32

/-- Enters a handler through a gate. The code segment is loaded before the frame is pushed. -/
def interruptProtected (vector : UInt8) (errorCode : Option UInt16) (software : Bool) :
    Exec Unit := do
  let m ← get
  let c := m.cpu
  let gate ← check (c.openGate m.bus vector software)
  let w : Width := if gate.wide then .dword else .word
  jumpFar gate.selector gate.offset
  push c.flagsImage w
  push (c.regs.selector .cs).toUInt32 w
  push c.regs.eip w
  match errorCode with
  | some code => push code.toUInt32 w
  | none => pure ()
  modifyCpu fun c => c.setFlags (Cpu.handlerFlags gate.masks c.regs.flags)
  log (.gateEntered vector gate.selector gate.offset)

/-- Enters the handler of a vector. Only protected mode pushes the error code, and only there may a
gate refuse a software interrupt. -/
def interrupt (vector : UInt8) (errorCode : Option UInt16) (software : Bool) : Exec Unit := do
  if (← cpu).protectedMode then interruptProtected vector errorCode software
  else interruptReal vector

end Exec

end X86
