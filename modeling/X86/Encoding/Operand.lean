import X86.Encoding.Code
import X86.Encoding.Fields
import X86.Encoding.Layout
import X86.Instruction.Basic

/-!
# Operand bytes

Reads the operands of a layout from the code. The bytes come in a fixed order: register fields,
scaled index, displacement, constants.
-/

namespace X86

/-- What the bytes before the opcode say about an instruction. -/
structure Prefixes where
  /-- The last segment override. -/
  segment : Override := none
  /-- The last repeat byte; `some true` asks to go on while elements are equal. -/
  rep : Option Bool := none
  /-- A bus lock was asked for. -/
  lock : Bool := false
  /-- Operands of the full size have 32 bits. -/
  op32 : Bool
  /-- Addresses have 32 bits. -/
  addr32 : Bool
deriving DecidableEq, Repr

namespace Encoding

/-- A displacement of one byte. -/
def shortDisplacement : Fetch UInt32 := Fetch.signed .byte

/-- A 16-bit address and the segment that it uses without an override. -/
def address16 (x : ModRM) : Fetch (SegReg × Address) := do
  if x.mode = 0 ∧ x.rm = 6 then
    return (.ds, .direct (← Fetch.word).toUInt32)
  else
    let form := AddressForm.ofCode x.rm
    let disp ←
      if x.mode = 1 then shortDisplacement
      else if x.mode = 2 then Fetch.signed .word
      else pure 0
    return (if form.usesBp then .ss else .ds, .based form disp.toUInt16.toInt16)

/-- Base, index and scale of a 32-bit address. -/
def baseAndIndex (x : ModRM) : Fetch (Option Gpr × Option Gpr × UInt8) := do
  if x.rm = 4 then
    let s := ScaledIndex.ofByte (← Fetch.byte)
    let index := if s.index = 4 then none else some (Gpr.ofCode s.index)
    let base := if s.base = 5 ∧ x.mode = 0 then none else some (Gpr.ofCode s.base)
    return (base, index, 1 <<< s.scale)
  else if x.rm = 5 ∧ x.mode = 0 then
    return (none, none, 1)
  else
    return (some (Gpr.ofCode x.rm), none, 1)

/-- A 32-bit address and the segment that it uses without an override. -/
def address32 (x : ModRM) : Fetch (SegReg × Address) := do
  let (base, index, scale) ← baseAndIndex x
  let disp ←
    if x.mode = 1 then shortDisplacement
    else if x.mode = 2 ∨ base.isNone then Fetch.dword
    else pure 0
  if base.isNone ∧ index.isNone then
    return (.ds, .direct disp)
  else
    let stack := base = some .sp ∨ base = some .bp
    return (if stack then .ss else .ds, .indexed base index scale disp.toInt32)

/-- A memory operand of width `w`. -/
def memory (p : Prefixes) (x : ModRM) (w : Width) : Fetch Operand := do
  let (default, address) ← if p.addr32 then address32 x else address16 x
  return .mem w (some (p.segment.getD default)) address

/-- A register or memory operand of width `w`. -/
def registerOrMemory (p : Prefixes) (x : ModRM) (w : Width) : Fetch Operand :=
  if x.isRegister then return .reg (.ofCode w x.rm) else memory p x w

/-- The target of a relative jump: the offset after the distance, plus the distance. -/
def relativeTarget (p : Prefixes) (w : Width) : Fetch Operand := do
  let disp ← Fetch.signed w
  let target := (← Fetch.offset) + disp
  return if p.op32 then .imm32 target else .imm16 target.toUInt16

/-- Reads an operand. -/
def operand (p : Prefixes) (x : ModRM) : OperandForm → Fetch Operand
  | .absent => return .absent
  | .fixed o => return o
  | .gpr n s => return .reg (.ofCode (s.width p.op32) n)
  | .reg s => return .reg (.ofCode (s.width p.op32) x.reg)
  | .rm s => registerOrMemory p x (s.width p.op32)
  | .mem s =>
    if x.isRegister then throw .registerOperand else memory p x (s.width p.op32)
  | .rmReg s => return .reg (.ofCode (s.width p.op32) x.rm)
  | .imm s => do
    let w := s.width p.op32
    return .imm w (← Fetch.sized w)
  | .signed8 => return .signed8 (← Fetch.byte).toInt8
  | .relative s => relativeTarget p (s.width p.op32)
  | .far => do
    let offset ← Fetch.sized (Size.full.width p.op32)
    let segment ← Fetch.word
    return .far segment offset
  | .offset s => do
    let offset ← Fetch.sized (if p.addr32 then .dword else .word)
    return .mem (s.width p.op32) (some (p.segment.getD .ds)) (.direct offset)

/-- Reads the operands of a layout. -/
def instruction (p : Prefixes) (x : ModRM) (l : Layout) : Fetch Instruction := do
  let dst ← operand p x l.dst
  let src ← operand p x l.src
  let src2 ← operand p x l.src2
  return { operation := l.operation, size := l.size.width p.op32, dst, src, src2 }

end Encoding

end X86
