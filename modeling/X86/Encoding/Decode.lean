import X86.Encoding.FirstPage
import X86.Encoding.Operand
import X86.Encoding.SecondPage

/-!
# Decoding

An instruction is a run of prefixes, an opcode and its operands, together at most fifteen bytes.
`decode` never fails: bytes that are no instruction decode to an invalid one, which says why and
keeps the bytes read so far.
-/

namespace X86

/-- The longest instruction, prefixes included. -/
def maxLength : Nat := 15

/-- The segment override that a byte stands for. -/
def Override.ofByte? (b : UInt8) : Option SegReg :=
  match b.toNat with
  | 0x26 => some .es
  | 0x2E => some .cs
  | 0x36 => some .ss
  | 0x3E => some .ds
  | 0x64 => some .fs
  | 0x65 => some .gs
  | _ => none

/-- The prefixes after one more byte; `none` if the byte is an opcode on this model. The sizes are
set against the size of the code segment, so a second size byte changes nothing. -/
def Prefixes.next? (m : Features) (wide : Bool) (p : Prefixes) (b : UInt8) : Option Prefixes :=
  match b.toNat with
  | 0x26 | 0x2E | 0x36 | 0x3E => some { p with segment := Override.ofByte? b }
  | 0x64 | 0x65 =>
    if m.wideRegisters then some { p with segment := Override.ofByte? b } else none
  | 0x66 => if m.wideRegisters then some { p with op32 := !wide } else none
  | 0x67 => if m.wideRegisters then some { p with addr32 := !wide } else none
  | 0xF0 => some { p with lock := true }
  | 0xF1 => if m.extendedOpcodes then none else some { p with lock := true }
  | 0xF2 => some { p with rep := some false }
  | 0xF3 => some { p with rep := some true }
  | _ => none

namespace Encoding

/-- Reads prefixes up to the opcode; the fuel is the number of bytes still allowed. -/
def prefixes (m : Features) : Nat → Prefixes → Fetch (Prefixes × UInt8)
  | 0, _ => do
    let _ ← Fetch.byte
    throw .tooLong
  | fuel + 1, p => do
    let b ← Fetch.byte
    match p.next? m (← read).wide b with
    | some p => prefixes m fuel p
    | none => return (p, b)

/-- Reads what a table entry says, except an escape. -/
def entry (p : Prefixes) : Entry → Fetch Instruction
  | .plain l => instruction p default l
  | .fields select => do
    let x := ModRM.ofByte (← Fetch.byte)
    match select x.reg with
    | .layout l => instruction p x l
    | .undefined => throw (.group x.reg)
    | .undefinedAfter form => do
      let _ ← operand p x form
      throw (.group x.reg)
  | .secondPage | .undefined => throw .opcode

/-- Reads an instruction from its opcode on. -/
def body (m : Features) (p : Prefixes) (b : UInt8) : Fetch Instruction :=
  match FirstPage.entry m b with
  | .secondPage => do entry p (SecondPage.entry (← Fetch.byte))
  | e => entry p e

/-- An invalid instruction from the bytes read so far, as far as they are kept. -/
def invalid (d : Decoder) (reason : Refusal) : Instruction :=
  { operation := .invalid (d.take d.length) reason }

/-- How an operation repeats under a repeat byte. -/
def repeatMode (operation : Operation) (rep : Option Bool) : Option RepeatMode :=
  if operation.isStringCompare then rep.map fun equal => if equal then .repe else .repne
  else if operation.isString then rep.map fun _ => .rep
  else none

/-- Adds what the prefixes say to an instruction of `n` bytes. -/
def complete (p : Prefixes) (n : Nat) (i : Instruction) : Instruction :=
  { i with
    length := n
    segment := p.segment
    lock := p.lock
    addr32 := p.addr32
    rep := repeatMode i.operation p.rep }

/-- Decodes an instruction whose opcode `b` is the last byte read. -/
def afterPrefixes (m : Features) (c : Code) (p : Prefixes) (b : UInt8) (d : Decoder) :
    Instruction × Decoder :=
  let (i, d) :=
    match (body m p b).run c |>.run d with
    | .ok i d => (i, d)
    | .error reason d => (invalid d reason, d)
  (complete p d.length (if d.length > maxLength then invalid d .tooLong else i), d)

end Encoding

/-- Decodes the instruction at the start of the code. Counting starts anew, but the bytes of the
instruction before are overwritten one by one only. -/
def Decoder.decode (d : Decoder) (m : Features) (c : Code) : Instruction × Decoder :=
  let start := Encoding.prefixes m maxLength { op32 := c.wide, addr32 := c.wide }
  match start.run c |>.run { d with length := 0 } with
  | .ok (p, b) d => Encoding.afterPrefixes m c p b d
  | .error reason d => (Encoding.invalid d reason, d)

/-- Decodes the instruction at the start of the code with a decoder that has not been used. -/
def decode (m : Features) (c : Code) : Instruction := (({} : Decoder).decode m c).1

end X86
