import X86.Cpu.Basic

/-!
# Devices

A device answers port accesses and may serve software interrupts in place of the code behind the
vector. Its answers are functions of the traffic so far, which is all that a deterministic device
can have learnt.
-/

namespace X86

/-- What serving an interrupt does. -/
structure Service where
  cpu : Cpu
  bus : Bus
  /-- The device asks the machine to stop. -/
  exit : Bool := false

/-- A device. `none` and `false` mean that the device does not have the port or the interrupt. -/
structure Device where
  /-- The byte that a port reads as. -/
  input8 : Traffic → UInt16 → Option UInt8 := fun _ _ => none
  /-- The word that a port reads as. -/
  input16 : Traffic → UInt16 → Option UInt16 := fun _ _ => none
  /-- Whether the device takes a byte written to a port. -/
  output8 : Traffic → UInt16 → UInt8 → Bool := fun _ _ _ => false
  /-- Whether the device takes a word written to a port. -/
  output16 : Traffic → UInt16 → UInt16 → Bool := fun _ _ _ => false
  /-- Whether the device serves a software interrupt. -/
  serves : Traffic → UInt8 → Bool := fun _ _ => false
  /-- Serves a software interrupt. -/
  serve : UInt8 → Cpu → Bus → Service := fun _ cpu bus => { cpu, bus }
deriving Inhabited

/-- The first device that gives an answer, with its place in the list. -/
def firstAnswer {α : Type} (devices : List Device) (ask : Device → Option α) : Option (Nat × α) :=
  go devices 0
where
  /-- The search from device number `n` on. -/
  go : List Device → Nat → Option (Nat × α)
    | [], _ => none
    | d :: rest, n =>
      match ask d with
      | some a => some (n, a)
      | none => go rest (n + 1)

end X86
