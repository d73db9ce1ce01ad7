import X86.Flags

/-!
# Conditions

The sixteen conditions that conditional jumps and SETcc test. Each even encoding has its negation
next to it.
-/

namespace X86

/-- A condition on the flags, in encoding order. -/
inductive Condition where
  /-- Overflow. -/
  | o
  /-- No overflow. -/
  | no
  /-- Below, unsigned. -/
  | b
  /-- Above or equal, unsigned. -/
  | ae
  /-- Equal. -/
  | e
  /-- Not equal. -/
  | ne
  /-- Below or equal, unsigned. -/
  | be
  /-- Above, unsigned. -/
  | a
  /-- Negative. -/
  | s
  /-- Not negative. -/
  | ns
  /-- Even parity. -/
  | p
  /-- Odd parity. -/
  | np
  /-- Less, signed. -/
  | l
  /-- Greater or equal, signed. -/
  | ge
  /-- Less or equal, signed. -/
  | le
  /-- Greater, signed. -/
  | g
deriving DecidableEq, Repr, Inhabited

namespace Condition

/-- The condition that the low four bits of `n` select. -/
def ofCode (n : UInt8) : Condition :=
  match n.toNat % 16 with
  | 0 => o
  | 1 => no
  | 2 => b
  | 3 => ae
  | 4 => e
  | 5 => ne
  | 6 => be
  | 7 => a
  | 8 => s
  | 9 => ns
  | 10 => p
  | 11 => np
  | 12 => l
  | 13 => ge
  | 14 => le
  | _ => g

/-- Whether the flags meet the condition. -/
def holds (c : Condition) (f : Flags) : Bool :=
  match c with
  | o => f.overflow
  | no => !f.overflow
  | b => f.carry
  | ae => !f.carry
  | e => f.zero
  | ne => !f.zero
  | be => f.carry || f.zero
  | a => !f.carry && !f.zero
  | s => f.sign
  | ns => !f.sign
  | p => f.parity
  | np => !f.parity
  | l => f.sign != f.overflow
  | ge => f.sign == f.overflow
  | le => f.zero || f.sign != f.overflow
  | g => !f.zero && f.sign == f.overflow

/-- The name in the processor manuals. -/
def name : Condition → String
  | o => "O"
  | no => "NO"
  | b => "B"
  | ae => "AE"
  | e => "E"
  | ne => "NE"
  | be => "BE"
  | a => "A"
  | s => "S"
  | ns => "NS"
  | p => "P"
  | np => "NP"
  | l => "L"
  | ge => "GE"
  | le => "LE"
  | g => "G"

/-- The ending of the mnemonic in a listing. -/
def suffix : Condition → String
  | o => "o"
  | no => "no"
  | b => "c"
  | ae => "nc"
  | e => "z"
  | ne => "nz"
  | be => "na"
  | a => "a"
  | s => "s"
  | ns => "ns"
  | p => "pe"
  | np => "po"
  | l => "l"
  | ge => "nl"
  | le => "ng"
  | g => "g"

end Condition

end X86
