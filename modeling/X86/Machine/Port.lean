import X86.Machine.Basic

/-!
# Ports

Port accesses go to the first device that has the port. A word that no device takes in one piece is
split into bytes, a double word always into words; a port that nobody has reads as ones.
-/

namespace X86.Exec

/-- Adds an exchange to the traffic. -/
def exchange (t : Transaction) : Exec Unit := modify fun m => { m with bus := m.bus.record t }

/-- Reads a byte from a port. -/
def input8 (port : UInt16) : Exec UInt8 := do
  let m ← get
  match firstAnswer m.devices (·.input8 m.bus.traffic port) with
  | some (n, v) =>
    exchange (.input8 n port)
    return v
  | none =>
    log (.unhandledInput port)
    return 0xFF

/-- Reads a word from a port. -/
def input16 (port : UInt16) : Exec UInt16 := do
  let m ← get
  match firstAnswer m.devices (·.input16 m.bus.traffic port) with
  | some (n, v) =>
    exchange (.input16 n port)
    return v
  | none =>
    let low ← input8 port
    let high ← input8 (port + 1)
    return word16 low high

/-- The first device that agrees, as an answer. -/
def agreement (ask : Device → Bool) (d : Device) : Option Unit := if ask d then some () else none

/-- Writes a byte to a port. -/
def output8 (port : UInt16) (v : UInt8) : Exec Unit := do
  let m ← get
  match firstAnswer m.devices (agreement (·.output8 m.bus.traffic port v)) with
  | some (n, _) => exchange (.output8 n port v)
  | none => log (.unhandledOutput port v)

/-- Writes a word to a port. -/
def output16 (port : UInt16) (v : UInt16) : Exec Unit := do
  let m ← get
  match firstAnswer m.devices (agreement (·.output16 m.bus.traffic port v)) with
  | some (n, _) => exchange (.output16 n port v)
  | none =>
    output8 port v.toUInt8
    output8 (port + 1) (v >>> 8).toUInt8

/-- Reads a value of any width from a port. -/
def input (port : UInt16) (w : Width) : Exec UInt32 :=
  match w with
  | .byte => return (← input8 port).toUInt32
  | .word => return (← input16 port).toUInt32
  | .dword => do
    let low ← input16 port
    let high ← input16 (port + 2)
    return word32 low high

/-- Writes a value of any width to a port. -/
def output (port : UInt16) (w : Width) (v : UInt32) : Exec Unit :=
  match w with
  | .byte => output8 port v.toUInt8
  | .word => output16 port v.toUInt16
  | .dword => do
    output16 port v.toUInt16
    output16 (port + 2) (v >>> 16).toUInt16

end X86.Exec
