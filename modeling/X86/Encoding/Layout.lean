import X86.Instruction.Operand
import X86.Instruction.Operation

/-!
# Layouts

The opcode tables give each opcode a layout: an operation, and for each operand the form in which it
is encoded. A layout is data; reading the operands is another module's work.
-/

namespace X86

/-- A width as an opcode fixes it. -/
inductive Size where
  | byte
  | word
  | dword
  /-- A word or a double word, as the operand size says. -/
  | full
deriving DecidableEq, Repr, Inhabited

namespace Size

/-- The width, given whether the operand size is 32 bits. -/
def width (wide : Bool) : Size → Width
  | byte => .byte
  | word => .word
  | dword => .dword
  | full => if wide then .dword else .word

/-- Bit 0 of most opcodes chooses between bytes and the full size. -/
def ofOpcode (b : UInt8) : Size := if b.toNat % 2 = 0 then byte else full

end Size

/-- How an operand is encoded. -/
inductive OperandForm where
  /-- There is no such operand. -/
  | absent
  /-- The opcode implies the operand. -/
  | fixed (o : Operand)
  /-- The general register with this number. -/
  | gpr (n : UInt8) (s : Size)
  /-- The register that the register field names. -/
  | reg (s : Size)
  /-- The register or memory that the mode and the low field name. -/
  | rm (s : Size)
  /-- As `rm`, but a register is refused. -/
  | mem (s : Size)
  /-- The register that the low field names, whatever the mode says. -/
  | rmReg (s : Size)
  /-- A constant. -/
  | imm (s : Size)
  /-- A byte constant that is extended with its sign. -/
  | signed8
  /-- A distance from the end of the instruction. -/
  | relative (s : Size)
  /-- A segment and an offset. -/
  | far
  /-- Memory at a constant offset. -/
  | offset (s : Size)
deriving DecidableEq, Repr, Inhabited

/-- What an opcode stands for. -/
structure Layout where
  operation : Operation
  size : Size := .word
  dst : OperandForm := .absent
  src : OperandForm := .absent
  src2 : OperandForm := .absent
deriving DecidableEq, Repr, Inhabited

/-- What the register field selects. -/
inductive Selection where
  /-- An instruction. -/
  | layout (l : Layout)
  /-- Nothing. -/
  | undefined
  /-- Nothing, but the bytes of an operand are read first. -/
  | undefinedAfter (operand : OperandForm)
deriving DecidableEq, Repr, Inhabited

/-- An entry of an opcode table. -/
inductive Entry where
  /-- The opcode is followed by its operands. -/
  | plain (l : Layout)
  /-- The opcode is followed by a byte with register fields; the register field may select. -/
  | fields (select : UInt8 → Selection)
  /-- The next byte is an opcode of the second page. -/
  | secondPage
  /-- No instruction. -/
  | undefined

namespace Entry

/-- An instruction without operand bytes that works at the given size. -/
def simple (operation : Operation) (size : Size) : Entry := plain { operation, size }

/-- A layout with register fields that the register field does not change. -/
def always (l : Layout) : Entry := fields fun _ => .layout l

/-- A two-operand instruction with register fields. -/
def pair (operation : Operation) (size : Size) (dst src : OperandForm) : Entry :=
  always { operation, size, dst, src }

/-- A string instruction. -/
def string (op : StringOp) (size : Size) : Entry := simple (.string op) size

/-- A push of a segment register. -/
def pushSegment (s : SegReg) (size : Size) : Entry :=
  plain { operation := .push, size, dst := .fixed (.reg (.seg s)) }

/-- A pop of a segment register. -/
def popSegment (s : SegReg) (size : Size) : Entry :=
  plain { operation := .pop, size, dst := .fixed (.reg (.seg s)) }

end Entry

/-- The accumulator as an operand. -/
def OperandForm.accumulator (s : Size) : OperandForm := .gpr 0 s

/-- The count register of shifts as an operand. -/
def OperandForm.countCl : OperandForm := .fixed (.reg (.byte .cl))

/-- The port register as an operand. -/
def OperandForm.portDx : OperandForm := .fixed (.reg (.word .dx))

end X86
