import X86.Encoding.Layout

/-!
# The second opcode page

The table of opcodes after an escape byte, which only the 80386 has.
-/

namespace X86.SecondPage

/-- The group of opcode 00: registers of system segments. -/
def selectorGroup (reg : UInt8) : Selection :=
  let one (operation : Operation) : Selection :=
    .layout { operation, size := .word, dst := .rm .word }
  match reg.toNat with
  | 0 => one (.storeSelector .localTable)
  | 1 => one (.storeSelector .task)
  | 2 => one (.loadSelector .localTable)
  | 3 => one (.loadSelector .task)
  | _ => .undefined

/-- The group of opcode 01: table registers and the machine status word. -/
def tableGroup (reg : UInt8) : Selection :=
  let table (operation : Operation) : Selection :=
    .layout { operation, size := .full, dst := .mem .word }
  match reg.toNat with
  | 0 => table (.storeTable .global)
  | 1 => table (.storeTable .interrupt)
  | 2 => table (.loadTable .global)
  | 3 => table (.loadTable .interrupt)
  | 4 => .layout { operation := .smsw, size := .word, dst := .rm .word }
  | 6 => .layout { operation := .lmsw, size := .word, dst := .rm .word }
  | _ => .undefined

/-- The control register that a move can name. -/
def control? (reg : UInt8) : Option Operand :=
  match reg.toNat with
  | 0 => some (.control 0)
  | 2 => some (.control 2)
  | 3 => some (.control 3)
  | _ => none

/-- Opcodes 20 to 23: moves between a general and a special register. -/
def moveSpecial (b reg : UInt8) : Selection :=
  let special := if b.toNat % 2 = 0 then control? reg else some (.debug (Fin.ofNat 8 reg.toNat))
  match special with
  | none => .undefined
  | some special =>
    if b < 0x22 then
      .layout { operation := .mov, size := .dword, dst := .rmReg .dword, src := .fixed special }
    else
      .layout { operation := .mov, size := .dword, dst := .fixed special, src := .rmReg .dword }

/-- A bit test whose bit number is in a register. -/
def bitTest (op : BitOp) : Entry := .pair (.bitTest op) .full (.rm .full) (.reg .full)

/-- A bit test whose bit number is a constant. -/
def bitGroup (reg : UInt8) : Selection :=
  let one (op : BitOp) : Selection :=
    .layout { operation := .bitTest op, size := .full, dst := .rm .full, src := .imm .byte }
  match reg.toNat with
  | 4 => one .bt
  | 5 => one .bts
  | 6 => one .btr
  | 7 => one .btc
  | _ => .undefined

/-- A shift over two registers. -/
def doubleShift (operation : Operation) (count : OperandForm) : Entry :=
  .always { operation, size := .full, dst := .rm .full, src := .reg .full, src2 := count }

/-- A load of a far pointer. -/
def loadFar (s : SegReg) : Entry := .pair (.loadFar s) .full (.reg .full) (.mem .full)

/-- A move that extends its source. -/
def extend (signed : Bool) (s : Size) : Entry :=
  .pair (.movExtend signed) .full (.reg .full) (.rm s)

/-- A near conditional jump. -/
def nearJump (b : UInt8) : Entry :=
  .plain { operation := .jcc (Condition.ofCode b), size := .full, dst := .relative .full }

/-- A byte set to a condition. -/
def setByte (b : UInt8) : Entry :=
  .always { operation := .setcc (Condition.ofCode b), size := .byte, dst := .rm .byte }

/-- Rows A0 to B8. -/
def rowsA0 (b : UInt8) : Entry :=
  match b.toNat with
  | 0xA0 => .pushSegment .fs .full
  | 0xA1 => .popSegment .fs .full
  | 0xA3 => bitTest .bt
  | 0xA4 => doubleShift .shiftLeftDouble (.imm .byte)
  | 0xA5 => doubleShift .shiftLeftDouble .countCl
  | 0xA8 => .pushSegment .gs .full
  | 0xA9 => .popSegment .gs .full
  | 0xAB => bitTest .bts
  | 0xAC => doubleShift .shiftRightDouble (.imm .byte)
  | 0xAD => doubleShift .shiftRightDouble .countCl
  | 0xAF => .pair .multiplyCut .full (.reg .full) (.rm .full)
  | 0xB2 => loadFar .ss
  | 0xB3 => bitTest .btr
  | 0xB4 => loadFar .fs
  | 0xB5 => loadFar .gs
  | 0xB6 => extend false .byte
  | 0xB7 => extend false .word
  | 0xBA => .fields bitGroup
  | 0xBB => bitTest .btc
  | 0xBC => .pair (.bitScan .forward) .full (.reg .full) (.rm .full)
  | 0xBD => .pair (.bitScan .reverse) .full (.reg .full) (.rm .full)
  | 0xBE => extend true .byte
  | 0xBF => extend true .word
  | _ => .undefined

/-- The entry of an opcode. -/
def entry (b : UInt8) : Entry :=
  match b.toNat / 8 with
  | 0 =>
    match b.toNat with
    | 0 => .fields selectorGroup
    | 1 => .fields tableGroup
    | 6 => .simple .clts .word
    | _ => .undefined
  | 4 => if b.toNat % 8 < 4 then .fields (moveSpecial b) else .undefined
  | 16 | 17 => nearJump b
  | 18 | 19 => setByte b
  | _ => rowsA0 b

end X86.SecondPage
