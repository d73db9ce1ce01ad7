import X86.Alu.Arithmetic
import X86.Alu.Decimal
import X86.Alu.Scan
import X86.Alu.Shift
import X86.Condition
import X86.Register.Basic

/-!
# Operations

What an instruction does, apart from its operands. Instructions that differ in one choice only, such
as the arithmetic of a two-operand instruction, share a constructor.
-/

namespace X86

/-- What a bit test does to the bit that it copies to the carry flag. -/
inductive BitOp where
  | bt
  | bts
  | btr
  | btc
deriving DecidableEq, Repr, Inhabited

/-- The instructions that write one control flag or the carry flag. -/
inductive FlagOp where
  | clc
  | cld
  | cli
  | cmc
  | stc
  | std
  | sti
deriving DecidableEq, Repr, Inhabited

/-- The string instructions. -/
inductive StringOp where
  | movs
  | cmps
  | scas
  | lods
  | stos
  | ins
  | outs
deriving DecidableEq, Repr, Inhabited

/-- The jumps that look at the count register. -/
inductive LoopOp where
  | loop
  | loope
  | loopne
  | jcxz
deriving DecidableEq, Repr, Inhabited

/-- The tables of protected mode whose place is kept in a register. -/
inductive SystemTable where
  /-- The descriptor table. -/
  | global
  /-- The interrupt table. -/
  | interrupt
deriving DecidableEq, Repr, Inhabited

/-- The system segments whose selector is kept in a register. -/
inductive SystemSegment where
  /-- The local descriptor table. -/
  | localTable
  /-- The task state. -/
  | task
deriving DecidableEq, Repr, Inhabited

/-- Why code bytes are no instruction. -/
inductive Refusal where
  /-- The opcode has no instruction for this value of the register field. -/
  | group (n : UInt8)
  /-- The model has no such opcode. -/
  | opcode
  /-- A register where only memory is allowed. -/
  | registerOperand
  /-- More than fifteen bytes. -/
  | tooLong
deriving DecidableEq, Repr, Inhabited

/-- What an instruction does. -/
inductive Operation where
  /-- Arithmetic on two operands. -/
  | binary (op : BinaryOp)
  /-- Arithmetic on one operand. -/
  | unary (op : UnaryOp)
  /-- Shifts and rotates. -/
  | shift (op : ShiftOp)
  /-- Shift left, filled from a second operand. -/
  | shiftLeftDouble
  /-- Shift right, filled from a second operand. -/
  | shiftRightDouble
  /-- Multiplication into the accumulator pair. -/
  | multiply (signed : Bool)
  /-- Signed multiplication cut to the destination. -/
  | multiplyCut
  /-- Division of the accumulator pair. -/
  | divide (signed : Bool)
  /-- Decimal adjustment of the accumulator. -/
  | decimal (op : DecimalOp)
  /-- Split AL into two digits. -/
  | aam
  /-- Join the two digits in AX. -/
  | aad
  /-- Bitwise conjunction for its flags alone. -/
  | test
  /-- Test and change one bit. -/
  | bitTest (op : BitOp)
  /-- Find the first set bit. -/
  | bitScan (op : ScanOp)
  /-- Sign extension of the accumulator into itself. -/
  | extendAccumulator
  /-- Sign extension of the accumulator into the data register. -/
  | extendData
  /-- Copy. -/
  | mov
  /-- Copy to a wider register. -/
  | movExtend (signed : Bool)
  /-- Exchange. -/
  | xchg
  /-- Compute an offset. -/
  | lea
  /-- Load a segment register and a general register from memory. -/
  | loadFar (s : SegReg)
  /-- Table lookup in AL. -/
  | xlat
  | push
  | pop
  | pusha
  | popa
  | pushf
  | popf
  /-- Flags to AH. -/
  | lahf
  /-- AH to flags. -/
  | sahf
  /-- Write one flag. -/
  | flag (op : FlagOp)
  /-- Read a port. -/
  | input
  /-- Write a port. -/
  | output
  /-- Set a byte to a condition. -/
  | setcc (c : Condition)
  /-- AL from the carry flag. -/
  | salc
  /-- String instructions. -/
  | string (op : StringOp)
  | jumpNear
  | jumpFar
  /-- Jump if a condition holds. -/
  | jcc (c : Condition)
  /-- Jump by the count register. -/
  | loop (op : LoopOp)
  | callNear
  | callFar
  | returnNear
  | returnFar
  /-- Make a stack frame. -/
  | enter
  /-- Remove a stack frame. -/
  | leave
  /-- Check an index. -/
  | bound
  /-- Software interrupt. -/
  | int
  | int3
  | into
  | iret
  | hlt
  | nop
  | wait
  /-- Coprocessor instruction. -/
  | escape
  /-- Raise the privilege field of a selector. -/
  | arpl
  /-- Clear the task switched bit. -/
  | clts
  /-- Load the low part of CR0. -/
  | lmsw
  /-- Store the low part of CR0. -/
  | smsw
  /-- Load a table register. -/
  | loadTable (t : SystemTable)
  /-- Store a table register. -/
  | storeTable (t : SystemTable)
  /-- Load a system segment register. -/
  | loadSelector (s : SystemSegment)
  /-- Store a system segment register. -/
  | storeSelector (s : SystemSegment)
  /-- Code bytes that are no instruction. -/
  | invalid (bytes : List UInt8) (reason : Refusal)
deriving DecidableEq, Repr, Inhabited

namespace Operation

/-- Whether the bytes were an instruction. -/
def isValid : Operation → Bool
  | invalid .. => false
  | _ => true

/-- String instructions honour repeat markers. -/
def isString : Operation → Bool
  | string _ => true
  | _ => false

/-- Comparing string instructions end a repeat by the zero flag. -/
def isStringCompare : Operation → Bool
  | string .cmps | string .scas => true
  | _ => false

end Operation

end X86
