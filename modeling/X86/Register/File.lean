import X86.Flags
import X86.Register.Basic
import X86.Register.View

/-!
# The register file

Each general register is stored once, with all its 32 bits; narrower registers are views of it.
`Registers.read` and `Registers.write` give every view.
-/

namespace X86

/-- The contents of the eight general registers. -/
structure Gprs where
  eax : UInt32 := 0
  ecx : UInt32 := 0
  edx : UInt32 := 0
  ebx : UInt32 := 0
  esp : UInt32 := 0
  ebp : UInt32 := 0
  esi : UInt32 := 0
  edi : UInt32 := 0
deriving DecidableEq, Repr, Inhabited

namespace Gprs

/-- The 32 bits of a register. -/
def get (g : Gprs) : Gpr → UInt32
  | .ax => g.eax
  | .cx => g.ecx
  | .dx => g.edx
  | .bx => g.ebx
  | .sp => g.esp
  | .bp => g.ebp
  | .si => g.esi
  | .di => g.edi

/-- Replaces the 32 bits of a register. -/
def set (g : Gprs) (r : Gpr) (v : UInt32) : Gprs :=
  match r with
  | .ax => { g with eax := v }
  | .cx => { g with ecx := v }
  | .dx => { g with edx := v }
  | .bx => { g with ebx := v }
  | .sp => { g with esp := v }
  | .bp => { g with ebp := v }
  | .si => { g with esi := v }
  | .di => { g with edi := v }

@[simp] theorem get_set_self (g : Gprs) (r : Gpr) (v : UInt32) : (g.set r v).get r = v := by
  cases r <;> rfl

@[simp] theorem get_set_ne (g : Gprs) {r s : Gpr} (v : UInt32) (h : s ≠ r) :
    (g.set r v).get s = g.get s := by
  cases r <;> cases s <;> simp_all [get, set]

@[ext] theorem ext_get {g h : Gprs} (eq : ∀ r, g.get r = h.get r) : g = h := by
  cases g
  cases h
  simp only [mk.injEq]
  exact ⟨eq .ax, eq .cx, eq .dx, eq .bx, eq .sp, eq .bp, eq .si, eq .di⟩

end Gprs

/-- One value for each segment register. -/
structure SegMap (α : Type) where
  es : α
  cs : α
  ss : α
  ds : α
  fs : α
  gs : α
deriving DecidableEq, Repr, Inhabited

namespace SegMap

variable {α : Type}

/-- The same value for all segment registers. -/
def replicate (a : α) : SegMap α := ⟨a, a, a, a, a, a⟩

/-- The value of a segment register. -/
def get (m : SegMap α) : SegReg → α
  | .es => m.es
  | .cs => m.cs
  | .ss => m.ss
  | .ds => m.ds
  | .fs => m.fs
  | .gs => m.gs

/-- Replaces the value of a segment register. -/
def set (m : SegMap α) (s : SegReg) (a : α) : SegMap α :=
  match s with
  | .es => { m with es := a }
  | .cs => { m with cs := a }
  | .ss => { m with ss := a }
  | .ds => { m with ds := a }
  | .fs => { m with fs := a }
  | .gs => { m with gs := a }

@[simp] theorem get_replicate (a : α) (s : SegReg) : (replicate a).get s = a := by
  cases s <;> rfl

@[simp] theorem get_set_self (m : SegMap α) (s : SegReg) (a : α) : (m.set s a).get s = a := by
  cases s <;> rfl

@[simp] theorem get_set_ne (m : SegMap α) {s t : SegReg} (a : α) (h : t ≠ s) :
    (m.set s a).get t = m.get t := by
  cases s <;> cases t <;> simp_all [get, set]

end SegMap

/-- The register file. -/
structure Registers where
  /-- The general registers. -/
  gprs : Gprs := {}
  /-- The selectors in the segment registers. -/
  selectors : SegMap UInt16 := .replicate 0
  /-- The offset of the next instruction in the code segment. -/
  eip : UInt32 := 0
  /-- The flags. -/
  flags : Flags := {}
  /-- The control registers. -/
  control : Vector UInt32 5 := .replicate 5 0
  /-- The debug registers. -/
  debug : Vector UInt32 8 := .replicate 8 0
deriving DecidableEq, Inhabited

namespace Registers

/-- A byte register. -/
def byte (g : Registers) (r : ByteReg) : UInt8 :=
  let v := g.gprs.get r.parent
  if r.isHigh then (v >>> 8).toUInt8 else v.toUInt8

/-- The low word of a general register. -/
def word (g : Registers) (r : Gpr) : UInt16 := (g.gprs.get r).toUInt16

/-- A whole general register. -/
def dword (g : Registers) (r : Gpr) : UInt32 := g.gprs.get r

/-- A selector. -/
def selector (g : Registers) (s : SegReg) : UInt16 := g.selectors.get s

/-- The low word of the instruction pointer. -/
def ip (g : Registers) : UInt16 := g.eip.toUInt16

/-- Replaces one byte of a general register. -/
def setByte (g : Registers) (r : ByteReg) (v : UInt8) : Registers :=
  let old := g.gprs.get r.parent
  { g with gprs := g.gprs.set r.parent (if r.isHigh then replaceHigh old v else replaceLow old v) }

/-- Replaces the low word of a general register. -/
def setWord (g : Registers) (r : Gpr) (v : UInt16) : Registers :=
  { g with gprs := g.gprs.set r (replaceWord (g.gprs.get r) v) }

/-- Replaces a general register. -/
def setDword (g : Registers) (r : Gpr) (v : UInt32) : Registers :=
  { g with gprs := g.gprs.set r v }

/-- Replaces a selector. -/
def setSelector (g : Registers) (s : SegReg) (v : UInt16) : Registers :=
  { g with selectors := g.selectors.set s v }

/-- A control register. -/
def readControl (g : Registers) (n : ControlReg) : UInt32 := g.control.get n

/-- Replaces a control register. -/
def writeControl (g : Registers) (n : ControlReg) (v : UInt32) : Registers :=
  { g with control := g.control.set n.val v n.isLt }

/-- A debug register. -/
def readDebug (g : Registers) (n : DebugReg) : UInt32 := g.debug.get n

/-- Replaces a debug register. -/
def writeDebug (g : Registers) (n : DebugReg) (v : UInt32) : Registers :=
  { g with debug := g.debug.set n.val v n.isLt }

/-- Reads any register, filled up with zeros. -/
def read (g : Registers) : Register → UInt32
  | .byte r => (g.byte r).toUInt32
  | .word r => (g.word r).toUInt32
  | .dword r => g.dword r
  | .seg s => (g.selector s).toUInt32

/-- Writes the low bits of `v` to any register. -/
def write (g : Registers) (r : Register) (v : UInt32) : Registers :=
  match r with
  | .byte r => g.setByte r v.toUInt8
  | .word r => g.setWord r v.toUInt16
  | .dword r => g.setDword r v
  | .seg s => g.setSelector s v.toUInt16

@[simp] theorem byte_setByte (g : Registers) (r : ByteReg) (v : UInt8) :
    (g.setByte r v).byte r = v := by
  cases hr : r.isHigh <;> simp [byte, setByte, hr]

@[simp] theorem word_setWord (g : Registers) (r : Gpr) (v : UInt16) :
    (g.setWord r v).word r = v := by
  simp [word, setWord]

@[simp] theorem dword_setDword (g : Registers) (r : Gpr) (v : UInt32) :
    (g.setDword r v).dword r = v :=
  g.gprs.get_set_self r v

@[simp] theorem selector_setSelector (g : Registers) (s : SegReg) (v : UInt16) :
    (g.setSelector s v).selector s = v :=
  g.selectors.get_set_self s v

/-- A view reads back what was written to it, cut to its width. -/
theorem read_write_self (g : Registers) (r : Register) (v : UInt32) :
    (g.write r v).read r = r.width.truncate v := by
  refine UInt32.toNat_inj.1 ?_
  cases r <;> simp [read, write, Register.width, Width.toNat_truncate, Width.values]

/-- A view fits its width. -/
theorem truncate_read (g : Registers) (r : Register) :
    r.width.truncate (g.read r) = g.read r := by
  refine Width.truncate_eq_self ?_
  cases r with
  | byte r => simpa [read, Register.width, Width.values] using (g.byte r).toNat_lt
  | word r => simpa [read, Register.width, Width.values] using (g.word r).toNat_lt
  | dword r => exact (g.dword r).toNat_lt
  | seg s => simpa [read, Register.width, Width.values] using (g.selector s).toNat_lt

end Registers

end X86
