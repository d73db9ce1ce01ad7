import X86.Model

/-!
# Machine settings

What a machine is built from, and the limits that settings must keep.
-/

namespace X86

/-- The settings of a machine. -/
structure Settings where
  /-- The processor model. -/
  model : Model := .i80186
  /-- The installed memory in KiB. -/
  memoryKb : Nat := 1024
  /-- Whether the A20 gate is open at the start. -/
  a20 : Bool := false
  /-- The number of steps between timer interrupts. -/
  period : Nat := 65536
  /-- The vector of interrupt line 0. -/
  masterBase : UInt8 := 0x08
  /-- The vector of interrupt line 8. -/
  slaveBase : UInt8 := 0x70
  /-- The file that the instruction trace goes to. -/
  trace : Option String := none
deriving DecidableEq, Repr, Inhabited

/-- Why settings are refused. -/
inductive SettingsFault where
  /-- The file cannot be read. -/
  | unreadable
  /-- The text is no TOML document, or a setting has a value of the wrong kind. -/
  | malformed
  /-- Less than 64 KiB of memory. -/
  | memoryTooSmall (kb : Nat)
  /-- More than 64 MiB of memory. -/
  | memoryTooLarge (kb : Nat)
  /-- A timer without a period. -/
  | noPeriod
deriving DecidableEq, Repr

/-- The wording of a refusal. -/
def SettingsFault.text : SettingsFault → String
  | unreadable => "io"
  | malformed => "config parse error"
  | memoryTooSmall kb => "invalid config: memory_kb " ++ toString kb ++ " is below 64"
  | memoryTooLarge kb => "invalid config: memory_kb " ++ toString kb ++ " exceeds 64 MiB"
  | noPeriod => "invalid config: instructions_per_tick must be non-zero"

/-- Checks the limits, memory first. -/
def Settings.validate (s : Settings) : Except SettingsFault Settings :=
  if s.memoryKb < 64 then .error (.memoryTooSmall s.memoryKb)
  else if s.memoryKb > 64 * 1024 then .error (.memoryTooLarge s.memoryKb)
  else if s.period = 0 then .error .noPeriod
  else .ok s

end X86
