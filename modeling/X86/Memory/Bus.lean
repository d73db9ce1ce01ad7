import X86.Memory.Ram
import X86.Memory.LittleEndian
import X86.Memory.Pointer

/-!
# The bus

What the processor reaches by a linear address: the A20 gate, a window that a graphics device can
claim, and the installed memory. The bus also keeps the traffic with all devices, in the order in
which it happened; a device may let its answers depend on it.
-/

namespace X86

/-- One exchange with a device. -/
inductive Transaction where
  /-- A byte stored in the graphics window. -/
  | store (addr : UInt32) (v : UInt8)
  /-- A byte read from a port. -/
  | input8 (device : Nat) (port : UInt16)
  /-- A word read from a port. -/
  | input16 (device : Nat) (port : UInt16)
  /-- A byte written to a port. -/
  | output8 (device : Nat) (port : UInt16) (v : UInt8)
  /-- A word written to a port. -/
  | output16 (device : Nat) (port : UInt16) (v : UInt16)
  /-- A software interrupt that the device served. -/
  | service (device : Nat) (vector : UInt8)
deriving DecidableEq, Repr, Inhabited

/-- All exchanges with devices, oldest first. -/
abbrev Traffic := Array Transaction

/-- A device that claims the graphics window: what its bytes read as, given the traffic so far. -/
structure Window where
  load : Traffic → UInt32 → UInt8

/-- The memory side of the machine. -/
structure Bus where
  /-- The installed memory. -/
  ram : Ram
  /-- Whether address line 20 is passed on. -/
  a20 : Bool := false
  /-- The device in the graphics window. -/
  window : Option Window := none
  /-- The exchanges with devices so far. -/
  traffic : Traffic := #[]

namespace Bus

/-- The first address of the graphics window. -/
def windowStart : UInt32 := 0xA0000

/-- The last address of the graphics window. -/
def windowEnd : UInt32 := 0xAFFFF

/-- Memory beyond the configured size that is always installed. -/
def extension : Nat := 0x10000

/-- A bus with the given size of memory, all zero, and no device. -/
def ofSize (size : Nat) : Bus := { ram := .zeros (size + extension) }

instance : Inhabited Bus := ⟨ofSize 0⟩

/-- The address behind the A20 gate: without the gate, line 20 is low. -/
def physical (b : Bus) (addr : UInt32) : UInt32 :=
  if b.a20 then addr else addr &&& 0xFFEFFFFF

/-- Whether a physical address lies in the graphics window. -/
def inWindow (addr : UInt32) : Bool := decide (windowStart ≤ addr) && decide (addr ≤ windowEnd)

/-- The window device that answers at a physical address. -/
def windowAt (b : Bus) (addr : UInt32) : Option Window :=
  if inWindow addr then b.window else none

/-- Reads a byte. -/
def read8 (b : Bus) (addr : UInt32) : UInt8 :=
  let addr := b.physical addr
  match b.windowAt addr with
  | some w => w.load b.traffic addr
  | none => b.ram.read addr

/-- Adds an exchange to the traffic. -/
def record (b : Bus) (t : Transaction) : Bus := { b with traffic := b.traffic.push t }

/-- Stores a byte. -/
def write8 (b : Bus) (addr : UInt32) (v : UInt8) : Bus :=
  let addr := b.physical addr
  if (b.windowAt addr).isSome then b.record (.store addr v)
  else { b with ram := b.ram.write addr v }

/-- Reads a word, low byte first. -/
def read16 (b : Bus) (addr : UInt32) : UInt16 := word16 (b.read8 addr) (b.read8 (addr + 1))

/-- Stores a word, low byte first. -/
def write16 (b : Bus) (addr : UInt32) (v : UInt16) : Bus :=
  (b.write8 addr v.toUInt8).write8 (addr + 1) (v >>> 8).toUInt8

/-- Reads a double word, low byte first. -/
def read32 (b : Bus) (addr : UInt32) : UInt32 := word32 (b.read16 addr) (b.read16 (addr + 2))

/-- Stores a double word, low byte first. -/
def write32 (b : Bus) (addr : UInt32) (v : UInt32) : Bus :=
  (b.write16 addr v.toUInt16).write16 (addr + 2) (v >>> 16).toUInt16

/-- Reads `n` bytes from `addr` on. -/
def readBytes (b : Bus) (addr : UInt32) (n : Nat) : List UInt8 :=
  (List.range n).map fun i => b.read8 (addr + UInt32.ofNat i)

/-- Stores bytes from `addr` on. -/
def writeBytes (b : Bus) (addr : UInt32) : List UInt8 → Bus
  | [] => b
  | v :: rest => (b.write8 addr v).writeBytes (addr + 1) rest

/-- The linear address of vector `v` in the table at `base`. -/
def vectorAddress (base : UInt32) (v : UInt8) : UInt32 := base + (v.toUInt32 <<< 2)

/-- Reads a real mode interrupt vector: the offset, then the segment. -/
def readVector (b : Bus) (base : UInt32) (v : UInt8) : FarPointer :=
  let entry := vectorAddress base v
  { segment := b.read16 (entry + 2), offset := b.read16 entry }

/-- Stores a real mode interrupt vector. -/
def writeVector (b : Bus) (base : UInt32) (v : UInt8) (p : FarPointer) : Bus :=
  let entry := vectorAddress base v
  (b.write16 entry p.offset).write16 (entry + 2) p.segment

theorem a20_write8 (b : Bus) (addr : UInt32) (v : UInt8) : (b.write8 addr v).a20 = b.a20 := by
  simp only [write8]
  split <;> rfl

theorem window_write8 (b : Bus) (addr : UInt32) (v : UInt8) :
    (b.write8 addr v).window = b.window := by
  simp only [write8]
  split <;> rfl

theorem size_write8 (b : Bus) (addr : UInt32) (v : UInt8) :
    (b.write8 addr v).ram.size = b.ram.size := by
  simp only [write8]
  split
  · rfl
  · exact b.ram.size_write ..

theorem windowAt_eq_none {b : Bus} (h : b.window = none) (addr : UInt32) :
    b.windowAt addr = none := by
  simp [windowAt, h]

theorem read8_eq {b : Bus} (h : b.window = none) (addr : UInt32) :
    b.read8 addr = b.ram.read (b.physical addr) := by
  simp [read8, windowAt_eq_none h]

theorem write8_eq {b : Bus} (h : b.window = none) (addr : UInt32) (v : UInt8) :
    b.write8 addr v = { b with ram := b.ram.write (b.physical addr) v } := by
  simp [write8, windowAt_eq_none h]

/-- Without a device in the window, a store changes what the same physical byte reads as, if it is
installed, and nothing else. -/
theorem read8_write8 {b : Bus} (h : b.window = none) (addr a : UInt32) (v : UInt8) :
    (b.write8 addr v).read8 a =
      if b.physical a = b.physical addr ∧ (b.physical addr).toNat < b.ram.size then v
      else b.read8 a := by
  rw [write8_eq h, read8_eq h, read8_eq (by exact h)]
  exact b.ram.read_write ..

end Bus

end X86
