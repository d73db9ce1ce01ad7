import X86.Instruction.Operation
import X86.Memory.Bus

/-!
# Code bytes

The decoder sees code as bytes by position, the first byte of the instruction at position zero. A
`Fetch` reads bytes in order and can refuse them; its state is the decoder, which counts the bytes
and keeps the first of them.
-/

namespace X86

/-- Code from the start of an instruction on. -/
structure Code where
  /-- The byte at a position. -/
  byteAt : Nat → UInt8
  /-- The offset of the first byte in its segment. -/
  start : UInt32
  /-- Offsets have 32 bits; otherwise they wrap at 64 KiB. -/
  wide : Bool

namespace Code

/-- The offset of position `n` in a segment of the given size. -/
def offsetOf (start : UInt32) (wide : Bool) (n : Nat) : UInt32 :=
  let offset := start + UInt32.ofNat n
  if wide || n == 0 then offset else offset &&& 0xFFFF

/-- The offset of position `n`. -/
def offset (c : Code) (n : Nat) : UInt32 := offsetOf c.start c.wide n

/-- The code at an offset of the segment that starts at the linear address `base`. -/
def ofBus (b : Bus) (base start : UInt32) (wide : Bool) : Code :=
  { byteAt := fun n => b.read8 (base + offsetOf start wide n), start, wide }

/-- The first `n` bytes. -/
def take (c : Code) (n : Nat) : List UInt8 := (List.range n).map c.byteAt

/-- A 16-bit offset cannot be counted on from the last 32-bit one. -/
def overflows (c : Code) : Bool := !c.wide && c.start == 0xFFFFFFFF

end Code

/-- What a decoder holds. It is used for one instruction after the other, and what an instruction
does not overwrite is left from earlier ones. -/
structure Decoder where
  /-- The first bytes of the instruction. -/
  bytes : Vector UInt8 16 := .replicate 16 0
  /-- The number of bytes read. -/
  length : Nat := 0
deriving DecidableEq, Repr

namespace Decoder

/-- Adds a byte. It is counted even if there is no room for it. -/
def push (d : Decoder) (b : UInt8) : Decoder :=
  { bytes := d.bytes.setIfInBounds d.length b, length := d.length + 1 }

/-- The first `n` bytes, as far as they are kept. -/
def take (d : Decoder) (n : Nat) : List UInt8 := d.bytes.toList.take n

end Decoder

/-- A reader of code bytes. -/
abbrev Fetch := ReaderT Code (EStateM Refusal Decoder)

namespace Fetch

/-- The next byte. -/
def byte : Fetch UInt8 := fun c d =>
  let b := c.byteAt d.length
  .ok b (d.push b)

/-- The next two bytes, low byte first. -/
def word : Fetch UInt16 := do
  let low ← byte
  let high ← byte
  return word16 low high

/-- The next four bytes, low byte first. -/
def dword : Fetch UInt32 := do
  let low ← word
  let high ← word
  return word32 low high

/-- The next bytes of width `w`, filled up with zeros. -/
def sized : Width → Fetch UInt32
  | .byte => return (← byte).toUInt32
  | .word => return (← word).toUInt32
  | .dword => dword

/-- The next bytes of width `w`, filled up with copies of the sign. -/
def signed (w : Width) : Fetch UInt32 := return w.signExtend (← sized w)

/-- The offset of the next byte. -/
def offset : Fetch UInt32 := fun c d => .ok (c.offset d.length) d

end Fetch

end X86
