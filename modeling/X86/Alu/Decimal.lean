import X86.Model
import X86.Flags
import X86.Memory.LittleEndian

/-!
# Decimal adjustment

Corrections of AL and AX after binary arithmetic on packed decimal digits (`daa`, `das`) and on
unpacked ones (`aaa`, `aas`, `aam`, `aad`).
-/

namespace X86

/-- The decimal adjustments that take no operand. -/
inductive DecimalOp where
  | daa
  | das
  | aaa
  | aas
deriving DecidableEq, Repr, Inhabited

namespace Alu

/-- Whether the low digit of `al` left the decimal range. -/
def lowDigitOff (al : UInt8) (f : Flags) : Bool := decide (al.toNat % 16 > 9) || f.adjust

/-- Whether both digits together left the decimal range. -/
def highDigitOff (al : UInt8) (f : Flags) : Bool := decide (al.toNat > 0x99) || f.carry

/-- Adjusts AL after an addition of packed digits. -/
def daa (al : UInt8) (f : Flags) : UInt8 × Flags :=
  let low := lowDigitOff al f
  let high := highDigitOff al f
  let res := al + (if low then 0x06 else 0) + (if high then 0x60 else 0)
  (res, { f.setResult .byte res.toUInt32 with carry := high, adjust := low })

/-- Adjusts AL after a subtraction of packed digits. -/
def das (al : UInt8) (f : Flags) : UInt8 × Flags :=
  let low := lowDigitOff al f
  let high := highDigitOff al f
  let res := al - (if low then 0x06 else 0) - (if high then 0x60 else 0)
  (res,
    { f.setResult .byte res.toUInt32 with
      carry := high || (low && (f.carry || decide (al.toNat < 6)))
      adjust := low })

/-- Adjusts AX after an addition of unpacked digits. -/
def aaa (m : Features) (ax : UInt16) (f : Flags) : UInt16 × Flags :=
  let al := ax.toUInt8
  let ah := (ax >>> 8).toUInt8
  let off := lowDigitOff al f
  let (ah, al) :=
    if off then
      if m.aaaAdjustsAx then
        let v := ax + 0x106
        ((v >>> 8).toUInt8, v.toUInt8)
      else (ah + 1, al + 6)
    else (ah, al)
  (word16 (al &&& 0x0F) ah, { f with carry := off, adjust := off })

/-- Adjusts AX after a subtraction of unpacked digits. -/
def aas (m : Features) (ax : UInt16) (f : Flags) : UInt16 × Flags :=
  let al := ax.toUInt8
  let ah := (ax >>> 8).toUInt8
  let off := lowDigitOff al f
  let (ah, al) :=
    if off then
      if m.aaaAdjustsAx then
        let v := ax - 6
        ((v >>> 8).toUInt8 - 1, v.toUInt8)
      else (ah - 1, al - 6)
    else (ah, al)
  (word16 (al &&& 0x0F) ah, { f with carry := off, adjust := off })

/-- The flags that describe an unpacked result in AL. -/
def unpackedFlags (al : UInt8) (f : Flags) : Flags :=
  { f.setResult .byte al.toUInt32 with carry := false, overflow := false, adjust := false }

/-- Splits AL into two digits of the given base; there is no answer for base zero. -/
def aam (al base : UInt8) (f : Flags) : Option (UInt16 × Flags) :=
  if base = 0 then none
  else some (word16 (al % base) (al / base), unpackedFlags (al % base) f)

/-- Joins the two digits in AX to one number in AL. -/
def aad (ax : UInt16) (base : UInt8) (f : Flags) : UInt16 × Flags :=
  let al := ax.toUInt8 + (ax >>> 8).toUInt8 * base
  (al.toUInt16, unpackedFlags al f)

end Alu

end X86
