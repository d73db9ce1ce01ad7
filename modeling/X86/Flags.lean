import X86.Width

/-!
# The flags register

`Flags` holds the fourteen flag bits and the two bits of the I/O privilege level. `toUInt32` packs
them into the register image, and `load16` and `load32` read an image back. Bit 1 of the image is
always set, and the bits without a name are dropped; `ofUInt32_toUInt32` says that no flag is lost.
-/

namespace X86

/-- A privilege level; ring 0 is the most privileged. -/
abbrev Ring := Fin 4

/-- The ring of the operating system. -/
def Ring.zero : Ring := ⟨0, by decide⟩

/-- The ring in the two low bits of a number. -/
def Ring.ofLowBits (n : Nat) : Ring := ⟨n % 4, Nat.mod_lt n (by decide)⟩

/-- The contents of the flags register. -/
structure Flags where
  /-- Bit 0: carry or borrow out of the result. -/
  carry : Bool := false
  /-- Bit 2: the low byte of the result has an even number of set bits. -/
  parity : Bool := false
  /-- Bit 4: carry or borrow out of bit 3. -/
  adjust : Bool := false
  /-- Bit 6: the result is zero. -/
  zero : Bool := false
  /-- Bit 7: the sign bit of the result. -/
  sign : Bool := false
  /-- Bit 8: a debug trap follows each instruction. -/
  trap : Bool := false
  /-- Bit 9: maskable interrupts are accepted. -/
  interrupt : Bool := false
  /-- Bit 10: string instructions move downwards. -/
  direction : Bool := false
  /-- Bit 11: the signed result does not fit. -/
  overflow : Bool := false
  /-- Bits 12 and 13: the least privileged ring that may use ports. -/
  iopl : Ring := .zero
  /-- Bit 14: the current task was called by another. -/
  nestedTask : Bool := false
  /-- Bit 16: instruction breakpoints are skipped once. -/
  resume : Bool := false
  /-- Bit 17: virtual 8086 mode. -/
  vm : Bool := false
  /-- Bit 19: the virtual image of `interrupt`. -/
  vif : Bool := false
  /-- Bit 20: a virtual interrupt is pending. -/
  vip : Bool := false
deriving DecidableEq, Repr, Inhabited

namespace Flags

/-- The register image as a number: each flag times the weight of its bit. -/
def toNat (f : Flags) : Nat :=
  f.carry.toNat + 0x2 + 0x4 * f.parity.toNat + 0x10 * f.adjust.toNat + 0x40 * f.zero.toNat
    + 0x80 * f.sign.toNat + 0x100 * f.trap.toNat + 0x200 * f.interrupt.toNat
    + 0x400 * f.direction.toNat + 0x800 * f.overflow.toNat + 0x1000 * f.iopl.val
    + 0x4000 * f.nestedTask.toNat + 0x10000 * f.resume.toNat + 0x20000 * f.vm.toNat
    + 0x80000 * f.vif.toNat + 0x100000 * f.vip.toNat

/-- The 32-bit register image. -/
def toUInt32 (f : Flags) : UInt32 := UInt32.ofNat f.toNat

/-- The low half of the register image. -/
def toUInt16 (f : Flags) : UInt16 := f.toUInt32.toUInt16

/-- Loads the low half from an image; the extended flags stay. -/
def load16 (f : Flags) (v : UInt32) : Flags :=
  { f with
    carry := bitAt v 0
    parity := bitAt v 2
    adjust := bitAt v 4
    zero := bitAt v 6
    sign := bitAt v 7
    trap := bitAt v 8
    interrupt := bitAt v 9
    direction := bitAt v 10
    overflow := bitAt v 11
    iopl := Ring.ofLowBits (v.toNat / 0x1000)
    nestedTask := bitAt v 14 }

/-- Loads all flags from an image. -/
def load32 (f : Flags) (v : UInt32) : Flags :=
  { f.load16 v with
    resume := bitAt v 16
    vm := bitAt v 17
    vif := bitAt v 19
    vip := bitAt v 20 }

/-- The flags of a 32-bit image. -/
def ofUInt32 (v : UInt32) : Flags := load32 {} v

/-- A flag weighs at most once. -/
theorem toNat_le_one (f : Flags) :
    f.carry.toNat ≤ 1 ∧ f.parity.toNat ≤ 1 ∧ f.adjust.toNat ≤ 1 ∧ f.zero.toNat ≤ 1
      ∧ f.sign.toNat ≤ 1 ∧ f.trap.toNat ≤ 1 ∧ f.interrupt.toNat ≤ 1 ∧ f.direction.toNat ≤ 1
      ∧ f.overflow.toNat ≤ 1 ∧ f.nestedTask.toNat ≤ 1 ∧ f.resume.toNat ≤ 1 ∧ f.vm.toNat ≤ 1
      ∧ f.vif.toNat ≤ 1 ∧ f.vip.toNat ≤ 1 := by
  simp only [Bool.toNat_le, and_self]

theorem toNat_lt (f : Flags) : f.toNat < 0x200000 := by
  have hf := f.toNat_le_one
  rw [toNat]
  omega

theorem toNat_toUInt32 (f : Flags) : f.toUInt32.toNat = f.toNat := by
  rw [toUInt32, UInt32.toNat_ofNat', Nat.mod_eq_of_lt (Nat.lt_trans f.toNat_lt (by decide))]

theorem bitAt_toUInt32 (f : Flags) {n : Nat} {b : Bool} (h : f.toNat >>> n % 2 = b.toNat) :
    bitAt f.toUInt32 n = b := by
  rw [bitAt, toNat_toUInt32, Nat.testBit_eq_decide_div_mod_eq, ← Nat.shiftRight_eq_div_pow, h]
  cases b <;> rfl

/-- An image holds all flags. -/
theorem ofUInt32_toUInt32 (f : Flags) : ofUInt32 f.toUInt32 = f := by
  have hf := f.toNat_le_one
  have level : Ring.ofLowBits (f.toUInt32.toNat / 0x1000) = f.iopl := by
    apply Fin.ext
    rw [toNat_toUInt32, toNat]
    simp only [Ring.ofLowBits]
    omega
  rw [ofUInt32, load32, load16, level]
  congr 1 <;> refine bitAt_toUInt32 f ?_ <;> rw [toNat] <;> omega

/-- Loads the five status flags of the low byte, as SAHF does. -/
def loadStatus (f : Flags) (v : UInt8) : Flags :=
  { f with
    carry := bitAt v.toUInt32 0
    parity := bitAt v.toUInt32 2
    adjust := bitAt v.toUInt32 4
    zero := bitAt v.toUInt32 6
    sign := bitAt v.toUInt32 7 }

/-- Whether the low byte of `v` has an even number of set bits. -/
def evenParity (v : UInt32) : Bool :=
  (List.range 8).foldl (fun even n => xor even (bitAt v n)) true

/-- Sets the parity flag from the low byte of a result. -/
def setParity (f : Flags) (v : UInt32) : Flags := { f with parity := evenParity v }

/-- Sets the sign, zero and parity flags from a result of width `w`. -/
def setResult (f : Flags) (w : Width) (v : UInt32) : Flags :=
  { f with
    sign := w.isNegative v
    zero := w.truncate v == 0
    parity := evenParity v }

/-- The carry flag as a number to add. -/
def carryValue (f : Flags) : UInt32 := f.carry.toUInt32

/-- One letter and digit for each of the nine classic flags. -/
def summary (f : Flags) : String :=
  let digit (b : Bool) := if b then "1" else "0"
  " ".intercalate
    [ "C" ++ digit f.carry, "Z" ++ digit f.zero, "S" ++ digit f.sign, "O" ++ digit f.overflow,
      "A" ++ digit f.adjust, "P" ++ digit f.parity, "D" ++ digit f.direction,
      "I" ++ digit f.interrupt, "T" ++ digit f.trap ]

end Flags

end X86
