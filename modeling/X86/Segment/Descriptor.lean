import X86.Memory.LittleEndian

/-!
# Segment descriptors

A segment register carries, beside its selector, a cached description of the segment. In real mode
it follows from the selector; in protected mode it is read from eight bytes of a descriptor table.
-/

namespace X86

/-- A cached segment descriptor. -/
structure Descriptor where
  /-- The linear address of offset zero. -/
  base : UInt32 := 0
  /-- The limit in bytes. -/
  limit : UInt32 := 0
  /-- The access byte. -/
  access : UInt8 := 0
  /-- Code runs with 32-bit operands, a stack is addressed by ESP. -/
  big : Bool := false
deriving DecidableEq, Repr, Inhabited

namespace Descriptor

/-- What a real mode load of a selector describes: a writable segment of 1 MiB at sixteen times the
selector. -/
def realMode (selector : UInt16) : Descriptor :=
  { base := selector.toUInt32 <<< 4, limit := 0xFFFFF, access := 0x92, big := false }

/-- A bit of the access byte. -/
def accessBit (d : Descriptor) (n : Nat) : Bool := d.access.toNat.testBit n

/-- Decodes a table entry. With the granularity bit set the limit counts pages of 4 KiB. -/
def ofBytes (byte : Nat → UInt8) : Descriptor :=
  let size := (word16 (byte 0) (byte 1)).toUInt32 ||| ((byte 6).toUInt32 &&& 0x0F) <<< 16
  { base := word32 (word16 (byte 2) (byte 3)) (word16 (byte 4) (byte 7))
    limit := if (byte 6).toNat.testBit 7 then (size <<< 12) ||| 0xFFF else size
    access := byte 5
    big := (byte 6).toNat.testBit 6 }

/-- The segment is in memory. -/
def isPresent (d : Descriptor) : Bool := d.accessBit 7

/-- The privilege level. -/
def dpl (d : Descriptor) : UInt8 := (d.access >>> 5) &&& 3

/-- Gates, task states and local tables; neither code nor data. -/
def isSystem (d : Descriptor) : Bool := !d.accessBit 4

/-- The type field of a system descriptor. -/
def systemType (d : Descriptor) : UInt8 := d.access &&& 0x0F

/-- A code segment. -/
def isCode (d : Descriptor) : Bool := !d.isSystem && d.accessBit 3

/-- A data segment. -/
def isData (d : Descriptor) : Bool := !d.isSystem && !d.accessBit 3

/-- A data segment that may be written. -/
def isWritable (d : Descriptor) : Bool := d.isData && d.accessBit 1

/-- A data segment, or a code segment that may be read. -/
def isReadable (d : Descriptor) : Bool := d.isData || (d.isCode && d.accessBit 1)

/-- A data segment whose valid offsets lie above the limit. -/
def isExpandDown (d : Descriptor) : Bool := d.isData && d.accessBit 2

/-- The entry has been loaded before. -/
def isAccessed (d : Descriptor) : Bool := d.accessBit 0

/-- The descriptor with its accessed bit set. -/
def markAccessed (d : Descriptor) : Descriptor := { d with access := d.access ||| 1 }

/-- The highest offset that the segment can have at all. -/
def topOffset (d : Descriptor) : Nat := if d.big then 0xFFFFFFFF else 0xFFFF

/-- Whether `len` bytes from `offset` on lie inside the segment. -/
def contains (d : Descriptor) (offset : UInt32) (len : Nat) : Bool :=
  let last := offset.toNat + len - 1
  if d.isExpandDown then
    decide (d.limit.toNat < offset.toNat) && decide (last ≤ d.topOffset)
  else
    decide (last ≤ d.limit.toNat)

/-- Whether `len` bytes from `offset` on lie inside the segment, where `len` may be zero. The last
of no bytes is the one before `offset`; at offset zero there is none, and so no answer. -/
def contains? (d : Descriptor) (offset : UInt32) (len : Nat) : Option Bool :=
  if offset.toNat + len = 0 then none else some (d.contains offset len)

end Descriptor

end X86
