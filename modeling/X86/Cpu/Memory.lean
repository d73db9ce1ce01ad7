import X86.Cpu.Operand

/-!
# Segmented memory

Reads and writes through a segment register. In protected mode the cached descriptor must allow the
access; a value that crosses the end of a 16-bit segment continues at offset zero.
-/

namespace X86

/-- What an access does to memory. -/
inductive AccessKind where
  | read
  | write
deriving DecidableEq, Repr

/-- Whether a segment may be accessed in this way at all. -/
def Descriptor.allows (d : Descriptor) (kind : AccessKind) : Bool :=
  d.isPresent && !d.isSystem && (match kind with | .read => d.isReadable | .write => d.isWritable)

namespace Cpu

/-- The exception that a refused access raises. -/
def accessFault (s : SegReg) : Exception := if s = .ss then .stackFault 0 else .generalProtection 0

/-- Whether the `n` bytes from a location on may be accessed. -/
def mayAccess (c : Cpu) (l : Location) (n : Nat) (kind : AccessKind) : Bool :=
  !c.protectedMode
    || ((c.caches.get l.seg).allows kind && (c.caches.get l.seg).contains l.offset n)

/-- Refuses an access that the cached descriptor does not allow. -/
def checkAccess (c : Cpu) (l : Location) (n : Nat) (kind : AccessKind) : Except Exception Unit :=
  if c.mayAccess l n kind then .ok () else .error (accessFault l.seg)

/-- The linear address of byte `i` at a location. -/
def byteAddress (c : Cpu) (l : Location) (i : Nat) : UInt32 :=
  c.segmentBase l.seg + (l.add (UInt32.ofNat i)).offset

/-- Reads a value that lies in one piece, without a check. -/
def loadPiece (c : Cpu) (b : Bus) (l : Location) (w : Width) : UInt32 :=
  let addr := c.segmentBase l.seg + l.offset
  match w with
  | .byte => (b.read8 addr).toUInt32
  | .word => (b.read16 addr).toUInt32
  | .dword => b.read32 addr

/-- Reads a value byte by byte, each offset wrapped, without a check. -/
def loadBytes (c : Cpu) (b : Bus) (l : Location) (w : Width) : UInt32 :=
  UInt32.ofNat (joinLittle (fun i => b.read8 (c.byteAddress l i)) w.bytes)

/-- Reads a value. -/
def read (c : Cpu) (b : Bus) (l : Location) (w : Width) : Except Exception UInt32 := do
  c.checkAccess l w.bytes .read
  if l.offset.toNat + w.bytes - 1 ≤ (offsetMask l.wide).toNat then return c.loadPiece b l w
  else return c.loadBytes b l w

/-- Stores the low `n` bytes of a value, the low byte first, without a check. -/
def storeBytes (c : Cpu) (b : Bus) (l : Location) (v : UInt32) (n : Nat) : Bus :=
  (List.range n).foldl (fun b i => b.write8 (c.byteAddress l i) (byteOf v i)) b

@[simp] theorem storeBytes_zero (c : Cpu) (b : Bus) (l : Location) (v : UInt32) :
    c.storeBytes b l v 0 = b := rfl

theorem storeBytes_succ (c : Cpu) (b : Bus) (l : Location) (v : UInt32) (n : Nat) :
    c.storeBytes b l v (n + 1) =
      (c.storeBytes b l v n).write8 (c.byteAddress l n) (byteOf v n) := by
  simp [storeBytes, List.range_succ]

/-- Reads an operand; it is cut to the width. -/
def readPlace (c : Cpu) (b : Bus) (p : Place) (w : Width) : Except Exception UInt32 :=
  match p with
  | .reg r => .ok (w.truncate (c.regs.read r))
  | .mem l => c.read b l w
  | .value v => .ok (w.truncate v)
  | .nowhere => .error .invalidOpcode

/-- The bits that count in the stack pointer. -/
def stackPointer (c : Cpu) : UInt32 := wrapOffset c.stack32 c.regs.gprs.esp

/-- Moves the stack pointer; a 16-bit one leaves the high half of ESP alone. -/
def setStackPointer (c : Cpu) (v : UInt32) : Cpu :=
  c.writeRegister (.ofGpr c.stack32 .sp) v

end Cpu

end X86
