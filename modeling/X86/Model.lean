/-!
# Processor models

Three generations of the processor are modelled. They differ in the eight points of `Features`; the
decoder and the arithmetic ask for a feature and never for a model.
-/

namespace X86

/-- A processor generation. -/
inductive Model where
  /-- The 8086. -/
  | i8086
  /-- The 80186. -/
  | i80186
  /-- The 80386. -/
  | i80386
deriving DecidableEq, Repr

instance : Inhabited Model := ⟨.i80186⟩

/-- What differs between the models. -/
structure Features where
  /-- Shift and rotate counts are taken modulo 32. -/
  maskShiftCount : Bool
  /-- Multiplication sets the zero flag from the low half; otherwise it clears it. -/
  mulSetsZero : Bool
  /-- PUSH SP stores the value that SP has after the push. -/
  pushSpDecremented : Bool
  /-- The top four bits of a 16-bit flags image read as ones. -/
  flagsHighNibbleSet : Bool
  /-- AAA and AAS carry from AL into AH. -/
  aaaAdjustsAx : Bool
  /-- Signed division accepts the most negative quotient. -/
  idivMinQuotient : Bool
  /-- The instructions that the 80186 added exist. -/
  extendedOpcodes : Bool
  /-- The 32-bit registers, the second opcode page and protected mode exist. -/
  wideRegisters : Bool
deriving DecidableEq, Repr

namespace Model

/-- The number printed on the chip. -/
def name : Model → String
  | i8086 => "8086"
  | i80186 => "80186"
  | i80386 => "80386"

/-- The model with the given number. -/
def ofName? (s : String) : Option Model :=
  [i8086, i80186, i80386].find? (·.name == s)

/-- The features of a model. -/
def features : Model → Features
  | i8086 =>
    { maskShiftCount := false
      mulSetsZero := true
      pushSpDecremented := true
      flagsHighNibbleSet := true
      aaaAdjustsAx := false
      idivMinQuotient := false
      extendedOpcodes := false
      wideRegisters := false }
  | i80186 =>
    { maskShiftCount := true
      mulSetsZero := false
      pushSpDecremented := true
      flagsHighNibbleSet := true
      aaaAdjustsAx := false
      idivMinQuotient := true
      extendedOpcodes := true
      wideRegisters := false }
  | i80386 =>
    { maskShiftCount := true
      mulSetsZero := false
      pushSpDecremented := false
      flagsHighNibbleSet := false
      aaaAdjustsAx := true
      idivMinQuotient := true
      extendedOpcodes := true
      wideRegisters := true }

end Model

end X86
