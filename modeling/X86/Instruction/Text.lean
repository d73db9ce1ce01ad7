import X86.Instruction.Basic

/-!
# Listings

An instruction as a listing writes it: repeat marker and mnemonic in columns of nine characters,
then the operands.
-/

namespace X86

/-- The mnemonic of a two-operand operation. -/
def BinaryOp.mnemonic : BinaryOp → String
  | add => "Add"
  | or => "Or"
  | adc => "Adc"
  | sbb => "Sbb"
  | and => "And"
  | sub => "Sub"
  | xor => "Xor"
  | cmp => "Cmp"

/-- The mnemonic of a one-operand operation. -/
def UnaryOp.mnemonic : UnaryOp → String
  | inc => "Inc"
  | dec => "Dec"
  | neg => "Neg"
  | not => "Not"

/-- The mnemonic of a shift. -/
def ShiftOp.mnemonic : ShiftOp → String
  | rol => "Rol"
  | ror => "Ror"
  | rcl => "Rcl"
  | rcr => "Rcr"
  | shl => "Shl"
  | shr => "Shr"
  | sal => "Sal"
  | sar => "Sar"

/-- The mnemonic of a decimal adjustment. -/
def DecimalOp.mnemonic : DecimalOp → String
  | daa => "Daa"
  | das => "Das"
  | aaa => "Aaa"
  | aas => "Aas"

/-- The mnemonic of a bit scan. -/
def ScanOp.mnemonic : ScanOp → String
  | forward => "Bsf"
  | reverse => "Bsr"

/-- The mnemonic of a bit test. -/
def BitOp.mnemonic : BitOp → String
  | bt => "Bt"
  | bts => "Bts"
  | btr => "Btr"
  | btc => "Btc"

/-- The mnemonic of a flag instruction. -/
def FlagOp.mnemonic : FlagOp → String
  | clc => "Clc"
  | cld => "Cld"
  | cli => "Cli"
  | cmc => "Cmc"
  | stc => "Stc"
  | std => "Std"
  | sti => "Sti"

/-- The mnemonic of a string instruction, without its width. -/
def StringOp.mnemonic : StringOp → String
  | movs => "Movs"
  | cmps => "Cmps"
  | scas => "Scas"
  | lods => "Lods"
  | stos => "Stos"
  | ins => "Ins"
  | outs => "Outs"

/-- The mnemonic of a jump by the count register. -/
def LoopOp.mnemonic : LoopOp → String
  | loop => "Loop"
  | loope => "Loope"
  | loopne => "Loopne"
  | jcxz => "Jcxz"

/-- The mnemonic of a load of a far pointer. -/
def SegReg.loadMnemonic : SegReg → String
  | es => "Les"
  | cs => "Lcs"
  | ss => "Lss"
  | ds => "Lds"
  | fs => "Lfs"
  | gs => "Lgs"

/-- The reason in a message. -/
def Refusal.text : Refusal → String
  | group n => "Reg(" ++ toString n.toNat ++ ")"
  | opcode => "Op"
  | registerOperand => "RegisterOperand"
  | tooLong => "TooLong"

/-- The letter after a mnemonic whose width is not clear from its operands. -/
def Width.letter : Width → String
  | byte => "b"
  | word => "w"
  | dword => "d"

/-- The marker in a listing. -/
def RepeatMode.text : RepeatMode → String
  | rep => "Rep"
  | repe => "Repe"
  | repne => "Repne"

namespace Operation

/-- The mnemonic, without the width. -/
def mnemonic : Operation → String
  | binary op => op.mnemonic
  | unary op => op.mnemonic
  | shift op => op.mnemonic
  | shiftLeftDouble => "Shld"
  | shiftRightDouble => "Shrd"
  | multiply false => "Mul"
  | multiply true => "Imul"
  | multiplyCut => "ImulTrunc"
  | divide false => "Div"
  | divide true => "Idiv"
  | decimal op => op.mnemonic
  | aam => "Aam"
  | aad => "Aad"
  | test => "Test"
  | bitTest op => op.mnemonic
  | bitScan op => op.mnemonic
  | extendAccumulator => "Cbw"
  | extendData => "Cwd"
  | mov => "Mov"
  | movExtend false => "Movzx"
  | movExtend true => "Movsx"
  | xchg => "Xchg"
  | lea => "Lea"
  | loadFar s => s.loadMnemonic
  | xlat => "Xlat"
  | push => "Push"
  | pop => "Pop"
  | pusha => "Pusha"
  | popa => "Popa"
  | pushf => "Pushf"
  | popf => "Popf"
  | lahf => "Lahf"
  | sahf => "Sahf"
  | flag op => op.mnemonic
  | input => "In"
  | output => "Out"
  | setcc c => "Set" ++ c.suffix
  | salc => "Salc"
  | string op => op.mnemonic
  | jumpNear => "JmpNear"
  | jumpFar => "JmpFar"
  | jcc c => "J" ++ c.suffix
  | loop op => op.mnemonic
  | callNear => "CallNear"
  | callFar => "CallFar"
  | returnNear => "Retn"
  | returnFar => "Retf"
  | enter => "Enter"
  | leave => "Leave"
  | bound => "Bound"
  | int => "Int"
  | int3 => "Int3"
  | into => "Into"
  | iret => "Iret"
  | hlt => "Hlt"
  | nop => "Nop"
  | wait => "Wait"
  | escape => "Esc"
  | arpl => "Arpl"
  | clts => "Clts"
  | lmsw => "Lmsw"
  | smsw => "Smsw"
  | loadTable .global => "Lgdt"
  | loadTable .interrupt => "Lidt"
  | storeTable .global => "Sgdt"
  | storeTable .interrupt => "Sidt"
  | loadSelector .localTable => "Lldt"
  | loadSelector .task => "Ltr"
  | storeSelector .localTable => "Sldt"
  | storeSelector .task => "Str"
  | invalid bytes _ => "INVALID " ++ Hex.ofBytes bytes

end Operation

namespace Instruction

/-- The mnemonic, with the width where the operands do not show it. -/
def mnemonic (i : Instruction) : String :=
  match i.operation with
  | .string _ => i.operation.mnemonic ++ i.size.letter
  | .pusha | .popa | .pushf | .popf | .iret =>
    i.operation.mnemonic ++ (if i.size = .dword then i.size.letter else "")
  | _ => i.operation.mnemonic

/-- The width of the columns for repeat marker and mnemonic. -/
def column : Nat := 9

/-- The operands that a listing shows: the first one, then the second; all three if there is a
third. -/
def shownOperands (i : Instruction) : List Operand :=
  if i.dst = .absent then []
  else if i.src2 ≠ .absent then [i.dst, i.src, i.src2]
  else if i.src ≠ .absent then [i.dst, i.src]
  else [i.dst]

/-- The listing without the segment override. -/
def bareText (i : Instruction) : String :=
  let marker := match i.rep with
    | some r => Text.padRight r.text column
    | none => ""
  match i.shownOperands with
  | [] => marker ++ i.mnemonic
  | operands =>
    Text.padRight (marker ++ i.mnemonic) column ++ ", ".intercalate (operands.map Operand.text)

/-- The listing; an override that no operand shows stands in front. -/
def text (i : Instruction) : String :=
  match i.segment with
  | some s => if i.dst.isMem || i.src.isMem then i.bareText else s.name ++ " " ++ i.bareText
  | none => i.bareText

end Instruction

end X86
