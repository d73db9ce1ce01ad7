import X86.Instruction.Operand
import X86.Instruction.Operation

/-!
# Instructions

A decoded instruction: an operation, up to three operands, and what the markers before the opcode
said.
-/

namespace X86

/-- How a string instruction repeats. -/
inductive RepeatMode where
  /-- Until the count is used up. -/
  | rep
  /-- Also until elements differ. -/
  | repe
  /-- Also until elements are equal. -/
  | repne
deriving DecidableEq, Repr, Inhabited

/-- A decoded instruction. -/
structure Instruction where
  /-- What it does. -/
  operation : Operation
  /-- The first operand, usually the destination. -/
  dst : Operand := .absent
  /-- The second operand. -/
  src : Operand := .absent
  /-- The third operand. -/
  src2 : Operand := .absent
  /-- The width it works at. -/
  size : Width := .word
  /-- Offsets and counts have 32 bits. -/
  addr32 : Bool := false
  /-- The segment override. -/
  segment : Override := none
  /-- How it repeats; only string instructions do. -/
  rep : Option RepeatMode := none
  /-- Whether the bus lock was asked for. -/
  lock : Bool := false
  /-- The number of code bytes. -/
  length : Nat := 0
deriving DecidableEq, Repr, Inhabited

namespace Instruction

/-- An instruction without markers, as wide as its first operand. -/
def ofOperands (operation : Operation) (dst src src2 : Operand) : Instruction :=
  { operation, dst, src, src2, size := dst.width?.getD .word }

/-- The bytes were an instruction. -/
def isValid (i : Instruction) : Bool := i.operation.isValid

end Instruction

end X86
