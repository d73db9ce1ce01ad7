import X86.Text.Hex
import X86.Register.Basic

/-!
# Memory addresses in instructions

The three ways in which an instruction computes an offset: a constant, one of the eight 16-bit
register forms, or a base and a scaled index of 32 bits.
-/

namespace X86

/-- A 16-bit register form, in encoding order. -/
inductive AddressForm where
  | bxSi
  | bxDi
  | bpSi
  | bpDi
  | si
  | di
  | bp
  | bx
deriving DecidableEq, Repr, Inhabited

namespace AddressForm

/-- The form that the low three bits of `n` select. -/
def ofCode (n : UInt8) : AddressForm :=
  match n.toNat % 8 with
  | 0 => bxSi
  | 1 => bxDi
  | 2 => bpSi
  | 3 => bpDi
  | 4 => si
  | 5 => di
  | 6 => bp
  | _ => bx

/-- The first register. -/
def base : AddressForm → Gpr
  | bxSi | bxDi | bx => .bx
  | bpSi | bpDi | bp => .bp
  | si => .si
  | di => .di

/-- The second register, if the form has one. -/
def index : AddressForm → Option Gpr
  | bxSi | bpSi => some .si
  | bxDi | bpDi => some .di
  | _ => none

/-- Forms with BP address the stack segment unless an override says otherwise. -/
def usesBp : AddressForm → Bool
  | bpSi | bpDi | bp => true
  | _ => false

/-- The registers, joined by a plus sign. -/
def text (f : AddressForm) : String :=
  match f.index with
  | some i => f.base.name ++ "+" ++ i.name
  | none => f.base.name

end AddressForm

/-- How an offset is computed. -/
inductive Address where
  /-- A constant. -/
  | direct (offset : UInt32)
  /-- A 16-bit form plus a displacement. -/
  | based (form : AddressForm) (disp : Int16)
  /-- `base + index * scale + disp`, in 32 bits. -/
  | indexed (base index : Option Gpr) (scale : UInt8) (disp : Int32)
deriving DecidableEq, Repr, Inhabited

namespace Address

/-- A displacement with its sign; zero is not written. -/
def displacementText (n : Int) : String :=
  if n < 0 then "-0x" ++ Hex.upper 1 n.natAbs
  else if n = 0 then ""
  else "+0x" ++ Hex.upper 1 n.natAbs

/-- An index register with its scale; a scale of one is not written. -/
def scaledText (r : Gpr) (scale : UInt8) : String :=
  if scale > 1 then r.wideName ++ "*" ++ toString scale.toNat else r.wideName

/-- The address as a listing writes it between brackets. -/
def text : Address → String
  | direct v => "0x" ++ Hex.upper 4 v.toNat
  | based form disp => form.text ++ displacementText disp.toInt
  | indexed base index scale disp =>
    match base.toList.map Gpr.wideName ++ index.toList.map (scaledText · scale) with
    | [] => "0x" ++ Hex.upper 8 disp.toUInt32.toNat
    | parts => "+".intercalate parts ++ displacementText disp.toInt

end Address

end X86
