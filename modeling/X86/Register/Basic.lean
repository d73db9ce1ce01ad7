import X86.Width

/-!
# Register names

The programmer's registers. Eight general registers are known by their 16-bit names; the same names
serve the 32-bit registers that contain them. Four of them have their low two bytes as registers of
their own.
-/

namespace X86

/-- A general register, in encoding order. -/
inductive Gpr where
  | ax
  | cx
  | dx
  | bx
  | sp
  | bp
  | si
  | di
deriving DecidableEq, Repr, Inhabited

/-- A byte register, in encoding order. -/
inductive ByteReg where
  | al
  | cl
  | dl
  | bl
  | ah
  | ch
  | dh
  | bh
deriving DecidableEq, Repr, Inhabited

/-- A segment register, in encoding order. -/
inductive SegReg where
  | es
  | cs
  | ss
  | ds
  | fs
  | gs
deriving DecidableEq, Repr, Inhabited

/-- The number of a control register. -/
abbrev ControlReg := Fin 5

/-- The control register that holds the mode bits. -/
def ControlReg.zero : ControlReg := ⟨0, by decide⟩

/-- The number of a debug register. -/
abbrev DebugReg := Fin 8

namespace Gpr

/-- All general registers, in encoding order. -/
def all : List Gpr := [ax, cx, dx, bx, sp, bp, si, di]

/-- The register that the low three bits of `n` select. -/
def ofCode (n : UInt8) : Gpr :=
  match n.toNat % 8 with
  | 0 => ax
  | 1 => cx
  | 2 => dx
  | 3 => bx
  | 4 => sp
  | 5 => bp
  | 6 => si
  | _ => di

/-- The place in encoding order. -/
def index : Gpr → Nat
  | ax => 0
  | cx => 1
  | dx => 2
  | bx => 3
  | sp => 4
  | bp => 5
  | si => 6
  | di => 7

/-- The 16-bit name. -/
def name : Gpr → String
  | ax => "ax"
  | cx => "cx"
  | dx => "dx"
  | bx => "bx"
  | sp => "sp"
  | bp => "bp"
  | si => "si"
  | di => "di"

/-- The 32-bit name. -/
def wideName (r : Gpr) : String := "e" ++ r.name

end Gpr

namespace ByteReg

/-- The byte register that the low three bits of `n` select. -/
def ofCode (n : UInt8) : ByteReg :=
  match n.toNat % 8 with
  | 0 => al
  | 1 => cl
  | 2 => dl
  | 3 => bl
  | 4 => ah
  | 5 => ch
  | 6 => dh
  | _ => bh

/-- The general register that holds the byte. -/
def parent : ByteReg → Gpr
  | al | ah => .ax
  | cl | ch => .cx
  | dl | dh => .dx
  | bl | bh => .bx

/-- Whether the register is the second byte of its general register. -/
def isHigh : ByteReg → Bool
  | al | cl | dl | bl => false
  | ah | ch | dh | bh => true

/-- The name in a listing. -/
def name : ByteReg → String
  | al => "al"
  | cl => "cl"
  | dl => "dl"
  | bl => "bl"
  | ah => "ah"
  | ch => "ch"
  | dh => "dh"
  | bh => "bh"

end ByteReg

namespace SegReg

/-- All segment registers, in encoding order. -/
def all : List SegReg := [es, cs, ss, ds, fs, gs]

/-- The segment register with the given number; two numbers of three bits are unused. -/
def ofCode? (n : UInt8) : Option SegReg := all[n.toNat]?

/-- The place in encoding order. -/
def index : SegReg → Nat
  | es => 0
  | cs => 1
  | ss => 2
  | ds => 3
  | fs => 4
  | gs => 5

/-- The name in a listing. -/
def name : SegReg → String
  | es => "es"
  | cs => "cs"
  | ss => "ss"
  | ds => "ds"
  | fs => "fs"
  | gs => "gs"

/-- The segment register with the given name. -/
def ofName? (s : String) : Option SegReg := all.find? (·.name == s)

end SegReg

/-- A register as an operand names it: a view of a certain width. -/
inductive Register where
  /-- A byte register. -/
  | byte (r : ByteReg)
  /-- The low word of a general register. -/
  | word (r : Gpr)
  /-- A whole general register. -/
  | dword (r : Gpr)
  /-- The selector in a segment register. -/
  | seg (s : SegReg)
deriving DecidableEq, Repr, Inhabited

namespace Register

/-- The register of width `w` that the low three bits of `n` select. -/
def ofCode (w : Width) (n : UInt8) : Register :=
  match w with
  | .byte => byte (ByteReg.ofCode n)
  | .word => word (Gpr.ofCode n)
  | .dword => dword (Gpr.ofCode n)

/-- AL, AX or EAX. -/
def accumulator : Width → Register
  | .byte => byte .al
  | .word => word .ax
  | .dword => dword .ax

/-- The view of a general register at a width that is not a byte. -/
def ofGpr (wide : Bool) (r : Gpr) : Register := if wide then dword r else word r

/-- The number of bits that the view shows. -/
def width : Register → Width
  | byte _ => .byte
  | word _ => .word
  | dword _ => .dword
  | seg _ => .word

/-- Whether the view is a byte. -/
def isByte : Register → Bool
  | byte _ => true
  | _ => false

/-- Whether the view is a selector. -/
def isSegment : Register → Bool
  | seg _ => true
  | _ => false

/-- The name in a listing. -/
def name : Register → String
  | byte r => r.name
  | word r => r.name
  | dword r => r.wideName
  | seg s => s.name

/-- Every register. -/
def all : List Register :=
  [ByteReg.al, .cl, .dl, .bl, .ah, .ch, .dh, .bh].map byte
    ++ Gpr.all.map word ++ Gpr.all.map dword ++ SegReg.all.map seg

/-- The register with the given name. -/
def ofName? (s : String) : Option Register :=
  all.find? (·.name == s)

end Register

end X86
