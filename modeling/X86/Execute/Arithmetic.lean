import X86.Alu.Multiply
import X86.Machine.Basic

/-!
# Arithmetic instructions

Each handler reads its operands, computes, writes the result, and last sets the flags, so that a
refused write leaves the flags as they were.
-/

namespace X86

namespace Exec

/-- What an operand of an instruction stands for now. -/
def place (i : Instruction) (o : Operand) : Exec Place := return (← cpu).resolve o i.addr32

/-- Arithmetic on two operands; a comparison stores no result. -/
def binary (op : BinaryOp) (i : Instruction) : Exec Unit := do
  let dst ← place i i.dst
  let src ← place i i.src
  let a ← readPlace dst i.size
  let b ← readPlace src i.size
  let (res, f) := Alu.binary op i.size a b (← flags)
  unless op = .cmp do writePlace dst i.size res
  setFlags f

/-- Bitwise conjunction for its flags. -/
def test (i : Instruction) : Exec Unit := do
  let dst ← place i i.dst
  let src ← place i i.src
  let a ← readPlace dst i.size
  let b ← readPlace src i.size
  setFlags (Alu.logic i.size (a &&& b) (← flags)).2

/-- Arithmetic on one operand. -/
def unary (op : UnaryOp) (i : Instruction) : Exec Unit := do
  let dst ← place i i.dst
  let a ← readPlace dst i.size
  let (res, f) := Alu.unary op i.size a (← flags)
  writePlace dst i.size res
  setFlags f

/-- A word of `size` bits must have more places than it is shifted by. -/
def requireShift (size : Nat) (amounts : List (Option Nat)) : Exec Unit :=
  if Alu.canShift size amounts then pure () else throw (.violation .shiftAmount)

/-- Shifts and rotates. -/
def shift (op : ShiftOp) (i : Instruction) : Exec Unit := do
  let dst ← place i i.dst
  let count ← place i i.src
  let a ← readPlace dst i.size
  let n ← readPlace count .byte
  let m := (← cpu).features
  requireShift 64 (Alu.shiftAmounts op i.size (Alu.effectiveCount m n))
  let (res, f) := Alu.shift op m i.size a n (← flags)
  writePlace dst i.size res
  setFlags f

/-- Shifts over two operands. -/
def doubleShift (amounts : Width → UInt32 → List (Option Nat))
    (compute : Width → UInt32 → UInt32 → UInt32 → Flags → UInt32 × Flags)
    (i : Instruction) : Exec Unit := do
  let dst ← place i i.dst
  let src ← place i i.src
  let count ← place i i.src2
  let a ← readPlace dst i.size
  let b ← readPlace src i.size
  let n ← readPlace count .byte
  requireShift 128 (amounts i.size n)
  let (res, f) := compute i.size a b n (← flags)
  writePlace dst i.size res
  setFlags f

end Exec

namespace Registers

/-- Writes a value of twice the width to AX, DX:AX or EDX:EAX. -/
def setDouble (g : Registers) (w : Width) (v : UInt64) : Registers :=
  match w with
  | .byte => g.setWord .ax v.toUInt16
  | .word => (g.setWord .ax v.toUInt16).setWord .dx (v >>> 16).toUInt16
  | .dword => (g.setDword .ax v.toUInt32).setDword .dx (v >>> 32).toUInt32

/-- Reads AX, DX:AX or EDX:EAX. -/
def double (g : Registers) (w : Width) : UInt64 :=
  match w with
  | .byte => (g.word .ax).toUInt64
  | .word => ((g.word .dx).toUInt64 <<< 16) ||| (g.word .ax).toUInt64
  | .dword => ((g.dword .dx).toUInt64 <<< 32) ||| (g.dword .ax).toUInt64

/-- Writes a quotient and a remainder to AL and AH, AX and DX, or EAX and EDX. -/
def setQuotient (g : Registers) (w : Width) (quotient remainder : UInt32) : Registers :=
  match w with
  | .byte => (g.setByte .al quotient.toUInt8).setByte .ah remainder.toUInt8
  | .word => (g.setWord .ax quotient.toUInt16).setWord .dx remainder.toUInt16
  | .dword => (g.setDword .ax quotient).setDword .dx remainder

end Registers

namespace Exec

/-- Changes the registers. -/
def modifyRegs (f : Registers → Registers) : Exec Unit :=
  modifyCpu fun c => { c with regs := f c.regs }

/-- Multiplication of the accumulator. -/
def multiply (signed : Bool) (i : Instruction) : Exec Unit := do
  let src ← place i i.dst
  let b ← readPlace src i.size
  let c ← cpu
  let a := c.regs.read (.accumulator i.size)
  let (product, f) :=
    if signed then Alu.imul c.features i.size a b c.regs.flags
    else Alu.mul c.features i.size a b c.regs.flags
  modifyRegs (·.setDouble i.size product)
  setFlags f

/-- Signed multiplication of the destination by the source, or of the second operand by the third;
the product is cut to the destination. -/
def multiplyCut (i : Instruction) : Exec Unit := do
  let dst ← place i i.dst
  let src ← place i i.src
  let c ← cpu
  let (a, b) ←
    if i.src2 = .absent then
      pure (← readPlace dst i.size, ← readPlace src i.size)
    else
      let imm ← place i i.src2
      pure (← readPlace src i.size, ← readPlace imm i.size)
  let (product, f) := Alu.imul c.features i.size a b c.regs.flags
  writePlace dst i.size product.toUInt32
  setFlags f

/-- The accumulator pair as a signed dividend. -/
def signedDividend (w : Width) (v : UInt64) : Int :=
  match w with
  | .byte => v.toUInt16.toInt16.toInt
  | .word => v.toUInt32.toInt32.toInt
  | .dword => v.toInt64.toInt

/-- Division of the accumulator pair; the flags stay. -/
def divide (signed : Bool) (i : Instruction) : Exec Unit := do
  let src ← place i i.dst
  let divisor ← readPlace src i.size
  let c ← cpu
  let dividend := c.regs.double i.size
  let answer :=
    if signed then Alu.idiv c.features i.size (signedDividend i.size dividend) divisor
    else Alu.div i.size dividend divisor
  match answer with
  | some (quotient, remainder) => modifyRegs (·.setQuotient i.size quotient remainder)
  | none => fault .divideError

/-- Decimal adjustment of the accumulator. -/
def decimal (op : DecimalOp) : Exec Unit := do
  let c ← cpu
  let al := c.regs.byte .al
  let ax := c.regs.word .ax
  let setAl (r : UInt8 × Flags) : Exec Unit := do
    modifyRegs (·.setByte .al r.1)
    setFlags r.2
  let setAx (r : UInt16 × Flags) : Exec Unit := do
    modifyRegs (·.setWord .ax r.1)
    setFlags r.2
  match op with
  | .daa => setAl (Alu.daa al c.regs.flags)
  | .das => setAl (Alu.das al c.regs.flags)
  | .aaa => setAx (Alu.aaa c.features ax c.regs.flags)
  | .aas => setAx (Alu.aas c.features ax c.regs.flags)

/-- The number base of an adjustment; ten unless the instruction says otherwise. -/
def base (i : Instruction) : UInt8 :=
  match i.dst with
  | .imm8 v => v
  | _ => 10

/-- Splits AL into two digits. -/
def aam (i : Instruction) : Exec Unit := do
  let g ← regs
  match Alu.aam (g.byte .al) (base i) g.flags with
  | some (ax, f) =>
    modifyRegs (·.setWord .ax ax)
    setFlags f
  | none => fault .divideError

/-- Joins the two digits in AX. -/
def aad (i : Instruction) : Exec Unit := do
  let g ← regs
  let (ax, f) := Alu.aad (g.word .ax) (base i) g.flags
  modifyRegs (·.setWord .ax ax)
  setFlags f

/-- Extends AL to AX, or AX to EAX, by its sign. -/
def extendAccumulator (i : Instruction) : Exec Unit :=
  modifyRegs fun g =>
    if i.size = .dword then g.setDword .ax (Width.word.signExtend (g.word .ax).toUInt32)
    else g.setWord .ax (Width.byte.signExtend (g.byte .al).toUInt32).toUInt16

/-- Fills DX, or EDX, with the sign of AX, or EAX. -/
def extendData (i : Instruction) : Exec Unit :=
  modifyRegs fun g =>
    if i.size = .dword then
      g.setDword .dx (if Width.dword.isNegative (g.dword .ax) then 0xFFFFFFFF else 0)
    else
      g.setWord .dx (if Width.word.isNegative (g.word .ax).toUInt32 then 0xFFFF else 0)

/-- Where the bit is that a bit number counts from an operand: in memory a number from a register
reaches beyond the operand, by whole operands in either direction. -/
def bitPlace (w : Width) (dst src : Place) (number : UInt32) : Place :=
  match dst, src with
  | .mem l, .reg _ =>
    let cells := w.toInt number / w.bits
    .mem (l.add (UInt32.ofInt (cells * w.bytes)))
  | _, _ => dst

/-- A bit test and what it makes of the operand; a plain test stores nothing. -/
def changeBit (op : BitOp) (v mask : UInt32) : Option UInt32 :=
  match op with
  | .bt => none
  | .bts => some (v ||| mask)
  | .btr => some (v &&& ~~~mask)
  | .btc => some (v ^^^ mask)

/-- Copies a bit to the carry flag and changes it. -/
def bitTest (op : BitOp) (i : Instruction) : Exec Unit := do
  let dst ← place i i.dst
  let src ← place i i.src
  let number ← readPlace src i.size
  let dst := bitPlace i.size dst src number
  let mask := UInt32.ofNat (1 <<< (number.toNat % i.size.bits))
  let v ← readPlace dst i.size
  match changeBit op v mask with
  | some res => writePlace dst i.size res
  | none => pure ()
  setFlags { ← flags with carry := v &&& mask != 0 }

/-- Finds the first set bit. If there is none, the destination stays. -/
def bitScan (op : ScanOp) (i : Instruction) : Exec Unit := do
  let dst ← place i i.dst
  let src ← place i i.src
  let v ← readPlace src i.size
  match Alu.scan op i.size v with
  | some index =>
    writePlace dst i.size (UInt32.ofNat index)
    setFlags { ← flags with zero := false }
  | none => setFlags { ← flags with zero := true }

end Exec

end X86
