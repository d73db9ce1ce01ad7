import X86.Instruction.Address

/-!
# Operands

What an instruction works on, as its encoding says it: registers and addresses are named, not read.
-/

namespace X86

/-- A segment override; without one the operand's own segment is used. -/
abbrev Override := Option SegReg

/-- The name of the segment that an override selects among data segments. -/
def Override.text (o : Override) : String := (o.getD .ds).name

/-- An operand of an instruction. -/
inductive Operand where
  /-- No operand. -/
  | absent
  /-- A general or segment register. -/
  | reg (r : Register)
  /-- A control register. -/
  | control (n : ControlReg)
  /-- A debug register. -/
  | debug (n : DebugReg)
  /-- A byte constant. -/
  | imm8 (v : UInt8)
  /-- A byte constant that is extended with its sign. -/
  | signed8 (v : Int8)
  /-- A word constant. -/
  | imm16 (v : UInt16)
  /-- A double word constant. -/
  | imm32 (v : UInt32)
  /-- A segment and an offset. -/
  | far (segment : UInt16) (offset : UInt32)
  /-- Memory of a certain width. -/
  | mem (w : Width) (segment : Override) (address : Address)
deriving DecidableEq, Repr, Inhabited

namespace Operand

/-- A constant of width `w`. -/
def imm (w : Width) (v : UInt32) : Operand :=
  match w with
  | .byte => imm8 v.toUInt8
  | .word => imm16 v.toUInt16
  | .dword => imm32 v

/-- Whether the operand is in memory. -/
def isMem : Operand → Bool
  | mem .. => true
  | _ => false

/-- The width, if the operand has one of its own. -/
def width? : Operand → Option Width
  | reg r => some r.width
  | imm8 _ => some .byte
  | imm16 _ => some .word
  | imm32 _ | control _ | debug _ => some .dword
  | mem w _ _ => some w
  | absent | signed8 _ | far .. => none

/-- The operand in a listing. -/
def text : Operand → String
  | absent => ""
  | reg r => r.name
  | control n => "cr" ++ toString n.val
  | debug n => "dr" ++ toString n.val
  | imm8 v => "0x" ++ Hex.upper 2 v.toNat
  | imm16 v => "0x" ++ Hex.upper 4 v.toNat
  | imm32 v => "0x" ++ Hex.upper 8 v.toNat
  | signed8 v =>
    "byte " ++ (if v < 0 then "-" else "+") ++ "0x" ++ Hex.upper 2 v.toInt.natAbs
  | far segment offset => Hex.upper 4 segment.toNat ++ ":" ++ Hex.upper 4 offset.toNat
  | mem w segment address => w.name ++ " [" ++ segment.text ++ ":" ++ address.text ++ "]"

end Operand

end X86
