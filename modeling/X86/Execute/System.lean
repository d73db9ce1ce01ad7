import X86.Execute.Data

/-!
# System instructions

The instructions that set up protected mode: table registers, system selectors, the machine status
word.
-/

namespace X86

/-- The bits of a table base that a 16-bit operand size moves. -/
def tableBase (w : Width) (base : UInt32) : UInt32 := if w = .dword then base else base &&& 0xFFFFFF

namespace Cpu

/-- A table register. -/
def table (c : Cpu) : SystemTable → TableRegister
  | .global => c.gdtr
  | .interrupt => c.idtr

/-- Replaces a table register. -/
def setTable (c : Cpu) (t : SystemTable) (r : TableRegister) : Cpu :=
  match t with
  | .global => { c with gdtr := r }
  | .interrupt => { c with idtr := r }

/-- A system segment register. -/
def systemSelector (c : Cpu) : SystemSegment → UInt16
  | .localTable => c.ldtr
  | .task => c.tr

/-- Replaces a system segment register. -/
def setSystemSelector (c : Cpu) (s : SystemSegment) (v : UInt16) : Cpu :=
  match s with
  | .localTable => { c with ldtr := v }
  | .task => { c with tr := v }

/-- Instructions on system segments exist in protected mode only. -/
def requireProtection (c : Cpu) : Except Exception Unit :=
  if c.protectedMode then .ok () else .error .invalidOpcode

end Cpu

namespace Exec

/-- Loads a table register from a limit and a base in memory. -/
def loadTable (t : SystemTable) (i : Instruction) : Exec Unit := do
  check (← cpu).requirePrivilege
  let l ← location i i.dst
  let limit ← readMem l .word
  let base ← readMem (l.add 2) .dword
  let r : TableRegister := { base := tableBase i.size base, limit := limit.toUInt16 }
  modifyCpu (·.setTable t r)
  log (.tableLoaded i.operation r.base r.limit)

/-- Stores a table register. -/
def storeTable (t : SystemTable) (i : Instruction) : Exec Unit := do
  let l ← location i i.dst
  let r := (← cpu).table t
  writeMem l .word r.limit.toUInt32
  writeMem (l.add 2) .dword (tableBase i.size r.base)

/-- Records the selector of a system segment. -/
def loadSelector (s : SystemSegment) (i : Instruction) : Exec Unit := do
  let c ← cpu
  check c.requireProtection
  check c.requirePrivilege
  let v := (← readPlace (← place i i.dst) .word).toUInt16
  modifyCpu (·.setSystemSelector s v)
  log (.selectorLoaded i.operation v)

/-- Stores the selector of a system segment. -/
def storeSelector (s : SystemSegment) (i : Instruction) : Exec Unit := do
  let c ← cpu
  check c.requireProtection
  let dst ← place i i.dst
  writePlace dst .word (c.systemSelector s).toUInt32

/-- Loads the low four bits of CR0, but cannot leave protected mode. -/
def lmsw (i : Instruction) : Exec Unit := do
  let c ← cpu
  check c.requirePrivilege
  let v ← readPlace (← place i i.dst) .word
  setCr0 ((c.cr0 &&& 0xFFFFFFF0) ||| (v &&& 0xF) ||| (c.cr0 &&& Cpu.protectionBit))

/-- Stores the low half of CR0. -/
def smsw (i : Instruction) : Exec Unit := do
  let dst ← place i i.dst
  writePlace dst .word ((← cpu).cr0 &&& 0xFFFF)

/-- Clears the task switched bit. -/
def clts : Exec Unit := do
  check (← cpu).requirePrivilege
  modifyCpu fun c => c.setCr0 (c.cr0 &&& ~~~Cpu.taskSwitchedBit)

/-- Raises the privilege field of a selector to that of another one, and says whether it did. -/
def arpl (i : Instruction) : Exec Unit := do
  check (← cpu).requireProtection
  let dst ← place i i.dst
  let src ← place i i.src
  let a ← readPlace dst .word
  let b ← readPlace src .word
  let raised := decide (a &&& 3 < b &&& 3)
  if raised then writePlace dst .word ((a &&& ~~~3) ||| (b &&& 3))
  setFlags { ← flags with zero := raised }

end Exec

end X86
