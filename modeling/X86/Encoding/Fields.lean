/-!
# Bit fields of operand bytes

The bytes after an opcode that name registers and addressing forms, split into their three fields.
-/

namespace X86

/-- The byte that names a register and a register or memory operand. -/
structure ModRM where
  /-- The top two bits: three for a register, else the size of the displacement. -/
  mode : UInt8
  /-- The middle three bits: a register, or a choice among operations. -/
  reg : UInt8
  /-- The low three bits: a register or an addressing form. -/
  rm : UInt8
deriving DecidableEq, Repr, Inhabited

namespace ModRM

/-- Splits a byte. -/
def ofByte (b : UInt8) : ModRM := ⟨b >>> 6, (b >>> 3) &&& 7, b &&& 7⟩

/-- Joins the fields. -/
def toByte (x : ModRM) : UInt8 := (x.mode <<< 6) ||| (x.reg <<< 3) ||| x.rm

/-- The second operand is a register. -/
def isRegister (x : ModRM) : Bool := x.mode == 3

end ModRM

/-- The byte that names a scaled index and a base. -/
structure ScaledIndex where
  /-- The top two bits: the scale as a power of two. -/
  scale : UInt8
  /-- The middle three bits. -/
  index : UInt8
  /-- The low three bits. -/
  base : UInt8
deriving DecidableEq, Repr, Inhabited

/-- Splits a byte. -/
def ScaledIndex.ofByte (b : UInt8) : ScaledIndex := ⟨b >>> 6, (b >>> 3) &&& 7, b &&& 7⟩

end X86
