import X86.Cpu.Basic

/-!
# Resolved operands

Before an instruction works on an operand, its address is computed once. What comes out is a place:
a register, a location in memory, or a constant.
-/

namespace X86

/-- A memory operand: a segment register and an offset inside its segment. -/
structure Location where
  seg : SegReg
  offset : UInt32
  /-- Offsets have 32 bits; otherwise they wrap at 64 KiB. -/
  wide : Bool
  /-- A narrow offset fits in 16 bits. -/
  offset_le : wide = false → offset ≤ 0xFFFF
deriving DecidableEq

namespace Location

/-- The location at an offset, which wraps. -/
def of (seg : SegReg) (offset : UInt32) (wide : Bool) : Location :=
  { seg, offset := wrapOffset wide offset, wide, offset_le := fun h => h ▸ wrapOffset_le offset }

/-- The location `n` bytes further; it wraps inside the segment. -/
def add (l : Location) (n : UInt32) : Location := .of l.seg (l.offset + n) l.wide

end Location

/-- What an operand stands for. -/
inductive Place where
  /-- A register. -/
  | reg (r : Register)
  /-- A location in memory. -/
  | mem (l : Location)
  /-- A constant, extended to 32 bits. -/
  | value (v : UInt32)
  /-- Nothing that can be read or written in general. -/
  | nowhere
deriving DecidableEq

namespace Cpu

/-- The offset that an address computes. -/
def effectiveAddress (c : Cpu) (a : Address) (wide : Bool) : UInt32 :=
  wrapOffset wide <|
    match a with
    | .direct v => v
    | .based form disp =>
      let base := (c.regs.word form.base).toUInt32
      let index := match form.index with
        | some i => (c.regs.word i).toUInt32
        | none => 0
      base + index + disp.toInt32.toUInt32
    | .indexed base index scale disp =>
      let base := match base with
        | some b => c.regs.dword b
        | none => 0
      let index := match index with
        | some i => c.regs.dword i * scale.toUInt32
        | none => 0
      disp.toUInt32 + base + index

/-- What an operand stands for under the given address size. -/
def resolve (c : Cpu) (o : Operand) (wide : Bool) : Place :=
  match o with
  | .reg r => .reg r
  | .imm8 v => .value v.toUInt32
  | .signed8 v => .value v.toInt32.toUInt32
  | .imm16 v => .value v.toUInt32
  | .imm32 v => .value v
  | .mem _ segment address =>
    .mem (.of (segment.getD .ds) (c.effectiveAddress address wide) wide)
  | .control _ | .debug _ | .far .. | .absent => .nowhere

end Cpu

end X86
