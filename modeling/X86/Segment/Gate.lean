import X86.Memory.LittleEndian

/-!
# Interrupt gates

An entry of the protected mode interrupt table names the handler of one vector.
-/

namespace X86

/-- What passing a gate does. -/
inductive GateKind where
  /-- A task switch. -/
  | task
  /-- Masks interrupts, 16-bit frame. -/
  | interrupt16
  /-- Leaves interrupts as they are, 16-bit frame. -/
  | trap16
  /-- Masks interrupts, 32-bit frame. -/
  | interrupt32
  /-- Leaves interrupts as they are, 32-bit frame. -/
  | trap32
deriving DecidableEq, Repr, Inhabited

namespace GateKind

/-- The frame is pushed in double words. -/
def isWide : GateKind → Bool
  | interrupt32 | trap32 => true
  | _ => false

/-- The handler starts with interrupts masked. -/
def masksInterrupts : GateKind → Bool
  | interrupt16 | interrupt32 => true
  | _ => false

/-- The kind that the low five bits of an access byte encode. -/
def ofAccess? (access : UInt8) : Option GateKind :=
  match access.toNat % 32 with
  | 0x05 => some task
  | 0x06 => some interrupt16
  | 0x07 => some trap16
  | 0x0E => some interrupt32
  | 0x0F => some trap32
  | _ => none

end GateKind

/-- A decoded entry of the interrupt table. -/
structure Gate where
  /-- The offset of the handler. -/
  offset : UInt32
  /-- The code segment of the handler. -/
  selector : UInt16
  /-- The kind; `none` if the entry is no gate. -/
  kind : Option GateKind
  /-- The least privileged level that may pass by a software interrupt. -/
  dpl : UInt8
  /-- The handler is in memory. -/
  present : Bool
deriving DecidableEq, Repr, Inhabited

namespace Gate

/-- Decodes a table entry. -/
def ofBytes (byte : Nat → UInt8) : Gate :=
  { offset := word32 (word16 (byte 0) (byte 1)) (word16 (byte 6) (byte 7))
    selector := word16 (byte 2) (byte 3)
    kind := GateKind.ofAccess? (byte 5)
    dpl := (byte 5 >>> 5) &&& 3
    present := (byte 5).toNat.testBit 7 }

end Gate

end X86
