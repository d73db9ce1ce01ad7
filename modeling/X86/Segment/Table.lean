/-!
# Descriptor table registers

The registers that say where the global descriptor table and the interrupt table lie.
-/

namespace X86

/-- The place and size of a descriptor table. -/
structure TableRegister where
  /-- The linear address of the first entry. -/
  base : UInt32 := 0
  /-- The offset of the last byte. -/
  limit : UInt16 := 0
deriving DecidableEq, Repr, Inhabited

namespace TableRegister

/-- The real mode vector table: 256 entries of four bytes at address zero. -/
def realModeVectors : TableRegister := { base := 0, limit := 0x3FF }

/-- Whether the eight byte entry at `offset` ends at an offset of 32 bits. -/
def isEntryOffset (offset : UInt32) : Bool := decide (offset.toNat + 7 < 0x100000000)

/-- The linear address of the eight byte entry at `offset`, if the table reaches that far. -/
def entryAddress? (t : TableRegister) (offset : UInt32) : Option UInt32 :=
  if offset.toNat + 7 > t.limit.toNat then none else some (t.base + offset)

end TableRegister

end X86
