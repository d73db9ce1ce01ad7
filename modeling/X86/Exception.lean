import X86.Text.Hex

/-!
# Exceptions

What an instruction can raise. Each exception has a fixed vector; some carry an error code that
protected mode pushes.
-/

namespace X86

/-- A processor exception. -/
inductive Exception where
  /-- A division by zero, or a quotient that does not fit. -/
  | divideError
  /-- The single step trap. -/
  | debug
  /-- INT3. -/
  | breakpoint
  /-- INTO with the overflow flag set. -/
  | overflow
  /-- BOUND with the index outside the bounds. -/
  | boundRange
  /-- No such instruction, or not with this operand. -/
  | invalidOpcode
  /-- A coprocessor instruction. -/
  | deviceNotAvailable
  /-- An exception could not be delivered. -/
  | doubleFault
  /-- A bad task state segment. -/
  | invalidTask (code : UInt16)
  /-- The segment or gate is not present. -/
  | notPresent (code : UInt16)
  /-- The stack segment refused the access. -/
  | stackFault (code : UInt16)
  /-- Any other violation of protection. -/
  | generalProtection (code : UInt16)
deriving DecidableEq, Repr, Inhabited

namespace Exception

/-- The interrupt vector. -/
def vector : Exception → UInt8
  | divideError => 0
  | debug => 1
  | breakpoint => 3
  | overflow => 4
  | boundRange => 5
  | invalidOpcode => 6
  | deviceNotAvailable => 7
  | doubleFault => 8
  | invalidTask _ => 10
  | notPresent _ => 11
  | stackFault _ => 12
  | generalProtection _ => 13

/-- The error code that protected mode pushes. -/
def errorCode : Exception → Option UInt16
  | doubleFault => some 0
  | invalidTask c | notPresent c | stackFault c | generalProtection c => some c
  | _ => none

/-- A trap returns to the following instruction, any other exception to the one that raised it. -/
def isTrap : Exception → Bool
  | debug | breakpoint | overflow | deviceNotAvailable => true
  | _ => false

/-- Traps that an instruction asks for are gated like a software interrupt. -/
def isSoftware : Exception → Bool
  | breakpoint | overflow => true
  | _ => false

/-- The two-letter name. -/
def mnemonic : Exception → String
  | divideError => "#DE"
  | debug => "#DB"
  | breakpoint => "#BP"
  | overflow => "#OF"
  | boundRange => "#BR"
  | invalidOpcode => "#UD"
  | deviceNotAvailable => "#NM"
  | doubleFault => "#DF"
  | invalidTask _ => "#TS"
  | notPresent _ => "#NP"
  | stackFault _ => "#SS"
  | generalProtection _ => "#GP"

/-- The name, with the error code in brackets if there is one. -/
def text (e : Exception) : String :=
  match e.errorCode with
  | some code => e.mnemonic ++ "(" ++ Hex.upper 4 code.toNat ++ ")"
  | none => e.mnemonic

end Exception

end X86
