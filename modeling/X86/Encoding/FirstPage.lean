import X86.Encoding.Layout
import X86.Model

/-!
# The first opcode page

The table of one-byte opcodes, in rows of eight as the architecture arranges it. An entry depends on
the features of the model and on nothing that follows the opcode.
-/

namespace X86.FirstPage

/-- Rows 00 to 38: arithmetic, and in the last two columns segment stack instructions, decimal
adjustments, and the escape to the second page. -/
def arithmetic (m : Features) (b : UInt8) : Entry :=
  let s := Size.ofOpcode b
  let op := Operation.binary (BinaryOp.ofCode (b >>> 3))
  match b.toNat with
  | 0x06 => .pushSegment .es .full
  | 0x07 => .popSegment .es .full
  | 0x0E => .pushSegment .cs .full
  | 0x0F =>
    if m.wideRegisters then .secondPage
    else if m.extendedOpcodes then .undefined
    else .popSegment .cs .word
  | 0x16 => .pushSegment .ss .full
  | 0x17 => .popSegment .ss .full
  | 0x1E => .pushSegment .ds .full
  | 0x1F => .popSegment .ds .full
  | 0x27 => .simple (.decimal .daa) .word
  | 0x2F => .simple (.decimal .das) .word
  | 0x37 => .simple (.decimal .aaa) .word
  | 0x3F => .simple (.decimal .aas) .word
  | n =>
    match n % 8 with
    | 0 | 1 => .pair op s (.rm s) (.reg s)
    | 2 | 3 => .pair op s (.reg s) (.rm s)
    | 4 | 5 => .plain { operation := op, size := s, dst := .accumulator s, src := .imm s }
    | _ => .undefined

/-- Rows 40 to 58: one instruction for each general register. -/
def register (operation : Operation) (b : UInt8) : Entry :=
  .plain { operation, size := .full, dst := .gpr b .full }

/-- Row 60. -/
def row60 (m : Features) (b : UInt8) : Entry :=
  match b.toNat % 8 with
  | 0 => .simple .pusha .full
  | 1 => .simple .popa .full
  | 2 => .pair .bound .full (.reg .full) (.mem .full)
  | 3 => if m.wideRegisters then .pair .arpl .word (.rm .word) (.reg .word) else .undefined
  | _ => .undefined

/-- Row 68. -/
def row68 (b : UInt8) : Entry :=
  let cut (imm : OperandForm) : Entry :=
    .always
      { operation := .multiplyCut, size := .full, dst := .reg .full, src := .rm .full, src2 := imm }
  match b.toNat % 8 with
  | 0 => .plain { operation := .push, size := .full, dst := .imm .full }
  | 1 => cut (.imm .full)
  | 2 => .plain { operation := .push, size := .full, dst := .signed8 }
  | 3 => cut .signed8
  | 4 | 5 => .string .ins (Size.ofOpcode b)
  | _ => .string .outs (Size.ofOpcode b)

/-- Rows 70 and 78: short conditional jumps. -/
def shortJump (b : UInt8) : Entry :=
  .plain { operation := .jcc (Condition.ofCode b), size := .full, dst := .relative .byte }

/-- Row 80: arithmetic with a constant, test, exchange. -/
def row80 (b : UInt8) : Entry :=
  let s := Size.ofOpcode b
  let group (src : OperandForm) : Entry :=
    .fields fun reg =>
      .layout { operation := .binary (BinaryOp.ofCode reg), size := s, dst := .rm s, src }
  match b.toNat % 8 with
  | 0 | 1 => group (.imm s)
  | 2 => group (.imm .byte)
  | 3 => group .signed8
  | 4 | 5 => .pair .test s (.rm s) (.reg s)
  | _ => .pair .xchg s (.rm s) (.reg s)

/-- The segment register that a move names; only the 80386 looks at all three bits of the field. -/
def movedSegment (m : Features) (reg : UInt8) : Option SegReg :=
  SegReg.ofCode? (if m.wideRegisters then reg else reg &&& 3)

/-- Row 88: moves, and a pop to memory. -/
def row88 (m : Features) (b : UInt8) : Entry :=
  let s := Size.ofOpcode b
  match b.toNat % 8 with
  | 0 | 1 => .pair .mov s (.rm s) (.reg s)
  | 2 | 3 => .pair .mov s (.reg s) (.rm s)
  | 4 =>
    .fields fun reg =>
      match movedSegment m reg with
      | some sr =>
        .layout
          { operation := .mov, size := .word, dst := .rm .word, src := .fixed (.reg (.seg sr)) }
      | none => .undefinedAfter (.rm .word)
  | 5 => .pair .lea .full (.reg .full) (.mem .full)
  | 6 =>
    .fields fun reg =>
      match movedSegment m reg with
      | some sr =>
        if sr = .cs && m.wideRegisters then .undefinedAfter (.rm .word)
        else
          .layout
            { operation := .mov, size := .word, dst := .fixed (.reg (.seg sr)), src := .rm .word }
      | none => .undefinedAfter (.rm .word)
  | _ =>
    .fields fun reg =>
      if reg = 0 then .layout { operation := .pop, size := .full, dst := .rm .full }
      else .undefined

/-- Row 90: exchanges with the accumulator. -/
def row90 (b : UInt8) : Entry :=
  if b = 0x90 then .simple .nop .word
  else
    .plain { operation := .xchg, size := .full, dst := .accumulator .full, src := .gpr b .full }

/-- Row 98. -/
def row98 (b : UInt8) : Entry :=
  match b.toNat % 8 with
  | 0 => .simple .extendAccumulator .full
  | 1 => .simple .extendData .full
  | 2 => .plain { operation := .callFar, size := .full, dst := .far }
  | 3 => .simple .wait .word
  | 4 => .simple .pushf .full
  | 5 => .simple .popf .full
  | 6 => .simple .sahf .word
  | _ => .simple .lahf .word

/-- Row A0: moves at a constant offset, string moves. -/
def rowA0 (b : UInt8) : Entry :=
  let s := Size.ofOpcode b
  match b.toNat % 8 with
  | 0 | 1 => .plain { operation := .mov, size := s, dst := .accumulator s, src := .offset s }
  | 2 | 3 => .plain { operation := .mov, size := s, dst := .offset s, src := .accumulator s }
  | 4 | 5 => .string .movs s
  | _ => .string .cmps s

/-- Row A8: test, string stores, loads and scans. -/
def rowA8 (b : UInt8) : Entry :=
  let s := Size.ofOpcode b
  match b.toNat % 8 with
  | 0 | 1 => .plain { operation := .test, size := s, dst := .accumulator s, src := .imm s }
  | 2 | 3 => .string .stos s
  | 4 | 5 => .string .lods s
  | _ => .string .scas s

/-- Rows B0 and B8: constants to registers. -/
def loadConstant (s : Size) (b : UInt8) : Entry :=
  .plain { operation := .mov, size := s, dst := .gpr b s, src := .imm s }

/-- The shift group with the given count. -/
def shiftGroup (s : Size) (count : OperandForm) : Entry :=
  .fields fun reg =>
    .layout { operation := .shift (ShiftOp.ofCode reg), size := s, dst := .rm s, src := count }

/-- Row C0. -/
def rowC0 (b : UInt8) : Entry :=
  let s := Size.ofOpcode b
  match b.toNat % 8 with
  | 0 | 1 => shiftGroup s (.imm .byte)
  | 2 => .plain { operation := .returnNear, size := .full, dst := .imm .word }
  | 3 => .simple .returnNear .full
  | 4 => .pair (.loadFar .es) .full (.reg .full) (.mem .full)
  | 5 => .pair (.loadFar .ds) .full (.reg .full) (.mem .full)
  | _ =>
    .fields fun reg =>
      if reg = 0 then .layout { operation := .mov, size := s, dst := .rm s, src := .imm s }
      else .undefined

/-- Row C8: frames, far returns, interrupts. -/
def rowC8 (b : UInt8) : Entry :=
  match b.toNat % 8 with
  | 0 => .plain { operation := .enter, size := .full, dst := .imm .word, src := .imm .byte }
  | 1 => .simple .leave .full
  | 2 => .plain { operation := .returnFar, size := .full, dst := .imm .word }
  | 3 => .simple .returnFar .full
  | 4 => .simple .int3 .word
  | 5 => .plain { operation := .int, size := .byte, dst := .imm .byte }
  | 6 => .simple .into .word
  | _ => .simple .iret .full

/-- Row D0. -/
def rowD0 (b : UInt8) : Entry :=
  let s := Size.ofOpcode b
  match b.toNat % 8 with
  | 0 | 1 => shiftGroup s (.fixed (.imm8 1))
  | 2 | 3 => shiftGroup s .countCl
  | 4 => .plain { operation := .aam, size := .byte, dst := .imm .byte }
  | 5 => .plain { operation := .aad, size := .byte, dst := .imm .byte }
  | 6 => .simple .salc .word
  | _ => .simple .xlat .word

/-- Row D8: coprocessor instructions; six bits say which. -/
def coprocessor (b : UInt8) : Entry :=
  .fields fun reg =>
    .layout
      { operation := .escape, size := .byte, dst := .fixed (.imm8 (((b &&& 7) <<< 3) ||| reg)),
        src := .rm .word }

/-- Row E0: loops, ports by number. -/
def rowE0 (b : UInt8) : Entry :=
  let s := Size.ofOpcode b
  let loop (op : LoopOp) : Entry :=
    .plain { operation := .loop op, size := .full, dst := .relative .byte }
  match b.toNat % 8 with
  | 0 => loop .loopne
  | 1 => loop .loope
  | 2 => loop .loop
  | 3 => loop .jcxz
  | 4 | 5 => .plain { operation := .input, size := s, dst := .accumulator s, src := .imm .byte }
  | _ => .plain { operation := .output, size := s, dst := .imm .byte, src := .accumulator s }

/-- Row E8: calls and jumps, ports by DX. -/
def rowE8 (b : UInt8) : Entry :=
  let s := Size.ofOpcode b
  match b.toNat % 8 with
  | 0 => .plain { operation := .callNear, size := .full, dst := .relative .full }
  | 1 => .plain { operation := .jumpNear, size := .full, dst := .relative .full }
  | 2 => .plain { operation := .jumpFar, size := .full, dst := .far }
  | 3 => .plain { operation := .jumpNear, size := .full, dst := .relative .byte }
  | 4 | 5 => .plain { operation := .input, size := s, dst := .accumulator s, src := .portDx }
  | _ => .plain { operation := .output, size := s, dst := .portDx, src := .accumulator s }

/-- The group of row F0: test and arithmetic on one operand. -/
def unaryGroup (s : Size) (reg : UInt8) : Selection :=
  let one (operation : Operation) : Selection := .layout { operation, size := s, dst := .rm s }
  match reg.toNat with
  | 0 | 1 => .layout { operation := .test, size := s, dst := .rm s, src := .imm s }
  | 2 => one (.unary .not)
  | 3 => one (.unary .neg)
  | 4 => one (.multiply false)
  | 5 => one (.multiply true)
  | 6 => one (.divide false)
  | _ => one (.divide true)

/-- Row F0. -/
def rowF0 (b : UInt8) : Entry :=
  match b.toNat % 8 with
  | 4 => .simple .hlt .word
  | 5 => .simple (.flag .cmc) .word
  | 6 | 7 => .fields (unaryGroup (Size.ofOpcode b))
  | _ => .undefined

/-- The group of opcode FE. -/
def byteGroup (reg : UInt8) : Selection :=
  match reg.toNat with
  | 0 => .layout { operation := .unary .inc, size := .byte, dst := .rm .byte }
  | 1 => .layout { operation := .unary .dec, size := .byte, dst := .rm .byte }
  | _ => .undefinedAfter (.rm .byte)

/-- The group of opcode FF: increments, indirect calls and jumps, a push. -/
def fullGroup (reg : UInt8) : Selection :=
  let one (operation : Operation) (dst : OperandForm) : Selection :=
    .layout { operation, size := .full, dst }
  match reg.toNat with
  | 0 => one (.unary .inc) (.rm .full)
  | 1 => one (.unary .dec) (.rm .full)
  | 2 => one .callNear (.rm .full)
  | 3 => one .callFar (.mem .full)
  | 4 => one .jumpNear (.rm .full)
  | 5 => one .jumpFar (.mem .full)
  | 6 => one .push (.rm .full)
  | _ => .undefined

/-- Row F8. -/
def rowF8 (b : UInt8) : Entry :=
  match b.toNat % 8 with
  | 0 => .simple (.flag .clc) .word
  | 1 => .simple (.flag .stc) .word
  | 2 => .simple (.flag .cli) .word
  | 3 => .simple (.flag .sti) .word
  | 4 => .simple (.flag .cld) .word
  | 5 => .simple (.flag .std) .word
  | 6 => .fields byteGroup
  | _ => .fields fullGroup

/-- The opcode that an 8086 executes for an opcode that only later models define. -/
def alias8086 (b : UInt8) : UInt8 :=
  if 0x60 ≤ b ∧ b ≤ 0x6F then b + 0x10
  else if b = 0xC0 ∨ b = 0xC1 ∨ b = 0xC8 ∨ b = 0xC9 then b + 2
  else b

/-- The entry of an opcode on a model that has the later opcodes. -/
def row (m : Features) (b : UInt8) : Entry :=
  match b.toNat / 8 with
  | 8 => register (.unary .inc) b
  | 9 => register (.unary .dec) b
  | 10 => register .push b
  | 11 => register .pop b
  | 12 => row60 m b
  | 13 => row68 b
  | 14 | 15 => shortJump b
  | 16 => row80 b
  | 17 => row88 m b
  | 18 => row90 b
  | 19 => row98 b
  | 20 => rowA0 b
  | 21 => rowA8 b
  | 22 => loadConstant .byte b
  | 23 => loadConstant .full b
  | 24 => rowC0 b
  | 25 => rowC8 b
  | 26 => rowD0 b
  | 27 => coprocessor b
  | 28 => rowE0 b
  | 29 => rowE8 b
  | 30 => rowF0 b
  | 31 => rowF8 b
  | _ => arithmetic m b

/-- The entry of an opcode. -/
def entry (m : Features) (b : UInt8) : Entry :=
  row m (if m.extendedOpcodes then b else alias8086 b)

end X86.FirstPage
