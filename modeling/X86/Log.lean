import X86.Exception
import X86.Instruction.Text
import X86.Segment.Descriptor

/-!
# The event log

What the machine reports while it runs. Entries say what happened; their wording is in one place,
`LogEntry.text`.
-/

namespace X86

/-- How grave an entry is. -/
inductive LogLevel where
  | error
  | warning
  | debug
  | trace
deriving DecidableEq, Repr

/-- The name of a level. -/
def LogLevel.name : LogLevel → String
  | error => "ERROR"
  | warning => "WARN"
  | debug => "DEBUG"
  | trace => "TRACE"

/-- A place in the code, as messages name it. -/
structure CodePlace where
  cs : UInt16
  eip : UInt32
deriving DecidableEq, Repr

namespace CodePlace

/-- The place with at least four digits for the offset. -/
def text (p : CodePlace) : String := Hex.upper 4 p.cs.toNat ++ ":" ++ Hex.upper 4 p.eip.toNat

/-- The place with at least eight digits for the offset. -/
def wideText (p : CodePlace) : String := Hex.upper 4 p.cs.toNat ++ ":" ++ Hex.upper 8 p.eip.toNat

end CodePlace

/-- Something that happened in the machine. -/
inductive LogEntry where
  /-- An instruction is about to be executed. -/
  | executing (place : CodePlace) (i : Instruction)
  /-- Code bytes are no instruction. -/
  | invalidOpcode (place : CodePlace) (bytes : List UInt8) (reason : Refusal)
  /-- HLT while interrupts are masked. -/
  | haltedForEver (place : CodePlace)
  /-- An exception is being delivered. -/
  | raised (e : Exception) (place : CodePlace)
  /-- The gate of a software exception refused it. -/
  | refused (second e : Exception)
  /-- The delivery of an exception failed. -/
  | escalated (second e : Exception)
  /-- The delivery of a double fault failed. -/
  | shutdown (place : CodePlace) (third : Exception)
  /-- A handler was entered through a gate. -/
  | gateEntered (vector : UInt8) (selector : UInt16) (offset : UInt32)
  /-- A segment register was loaded from a descriptor table. -/
  | segmentLoaded (s : SegReg) (selector : UInt16) (d : Descriptor)
  /-- A table register was loaded. -/
  | tableLoaded (operation : Operation) (base : UInt32) (limit : UInt16)
  /-- A system segment register was loaded. -/
  | selectorLoaded (operation : Operation) (selector : UInt16)
  /-- Protected mode was entered or left. -/
  | modeChanged (protectedMode : Bool) (place : CodePlace)
  /-- Paging was switched on. -/
  | pagingIgnored
  /-- No device has the port. -/
  | unhandledInput (port : UInt16)
  /-- No device has the port. -/
  | unhandledOutput (port : UInt16) (v : UInt8)
deriving DecidableEq, Repr

namespace LogEntry

/-- The level of an entry. -/
def level : LogEntry → LogLevel
  | executing .. => .trace
  | invalidOpcode .. | haltedForEver .. | shutdown .. => .error
  | pagingIgnored | unhandledInput .. | unhandledOutput .. => .warning
  | _ => .debug

/-- The wording of an entry. -/
def text : LogEntry → String
  | executing place i => "[" ++ place.text ++ "] " ++ i.text
  | invalidOpcode place bytes reason =>
    "[" ++ place.text ++ "] invalid opcode " ++ Hex.ofBytes bytes ++ " (" ++ reason.text ++ ")"
  | haltedForEver place => "[" ++ place.text ++ "] HLT with interrupts disabled, stopping"
  | raised e place => e.text ++ " at " ++ place.text
  | refused second e => second.text ++ " refused " ++ e.text ++ ", faulting the instruction"
  | escalated second e =>
    second.text ++ " while delivering " ++ e.text ++ ", raising double fault"
  | shutdown place third =>
    "shutdown at " ++ place.text ++ ": " ++ third.text ++ " while delivering double fault"
  | gateEntered vector selector offset =>
    "interrupt " ++ Hex.upper 2 vector.toNat ++ " via IDT to " ++ Hex.upper 4 selector.toNat ++ ":"
      ++ Hex.upper 8 offset.toNat
  | segmentLoaded s selector d =>
    "load " ++ s.name ++ " = " ++ Hex.upper 4 selector.toNat ++ ", base "
      ++ Hex.upper 8 d.base.toNat ++ " limit " ++ Hex.upper 8 d.limit.toNat
  | tableLoaded operation base limit =>
    operation.mnemonic ++ " base " ++ Hex.upper 8 base.toNat ++ " limit "
      ++ Hex.upper 4 limit.toNat
  | selectorLoaded operation selector =>
    operation.mnemonic ++ " " ++ Hex.upper 4 selector.toNat
  | modeChanged true place => "entering protected mode at " ++ place.wideText
  | modeChanged false place => "returning to real mode at " ++ place.wideText
  | pagingIgnored => "paging is not supported, CR0.PG has no effect"
  | unhandledInput port => "in_u8: unhandled port " ++ Hex.upper 4 port.toNat
  | unhandledOutput port v =>
    "out_u8: unhandled port " ++ Hex.upper 4 port.toNat ++ " = " ++ Hex.upper 2 v.toNat

end LogEntry

end X86
