import X86.Alu.Decimal
import X86.Alu.Multiply
import X86.Alu.Shift
import X86.Proofs.Cpu.Move

/-!
# Control flags and arithmetic

The six status flags describe a result; the other nine control the processor. No operation on
operands writes a control flag: the flags that it returns differ from those that it was given in
status flags only.

* `Flags.SameControl`: the nine control flags agree.
* `sameControl_…`: one lemma for each operation of the arithmetic unit.
-/

namespace X86

/-- The flags that control the processor are the same. -/
structure Flags.SameControl (f g : Flags) : Prop extends f.SameSystem g where
  trap : f.trap = g.trap
  interrupt : f.interrupt = g.interrupt
  direction : f.direction = g.direction

namespace Flags.SameControl

variable {f g h : Flags}

theorem refl (f : Flags) : f.SameControl f := ⟨.refl f, rfl, rfl, rfl⟩

theorem trans (hf : f.SameControl g) (hg : g.SameControl h) : f.SameControl h :=
  ⟨hf.toSameSystem.trans hg.toSameSystem, hf.trap.trans hg.trap, hf.interrupt.trans hg.interrupt,
    hf.direction.trans hg.direction⟩

/-- Status flags can be given any values. -/
theorem status (f : Flags) (carry parity adjust zero sign overflow : Bool) :
    { f with carry, parity, adjust, zero, sign, overflow }.SameControl f :=
  ⟨⟨rfl, rfl, rfl, rfl, rfl, rfl⟩, rfl, rfl, rfl⟩

theorem ite {α : Type} {p : Prop} [Decidable p] {x y : α × Flags} (hx : x.2.SameControl f)
    (hy : y.2.SameControl f) : (if p then x else y).2.SameControl f := by
  split
  · exact hx
  · exact hy

end Flags.SameControl

open Flags (SameControl)

namespace Alu

variable (w : Width) (a b : UInt32) (f : Flags)

/-! ### Addition, subtraction and bitwise logic -/

theorem sameControl_addWithCarry (c : Bool) : (addWithCarry w a b c f).2.SameControl f :=
  .status f _ _ _ _ _ _

theorem sameControl_subWithBorrow (c : Bool) : (subWithBorrow w a b c f).2.SameControl f :=
  .status f _ _ _ _ _ _

theorem sameControl_logic : (logic w a f).2.SameControl f := .status f _ _ _ _ _ _

theorem sameControl_binary (op : BinaryOp) : (binary op w a b f).2.SameControl f := by
  cases op with
  | add => exact sameControl_addWithCarry w a b f false
  | adc => exact sameControl_addWithCarry w a b f f.carry
  | sub | cmp => exact sameControl_subWithBorrow w a b f false
  | sbb => exact sameControl_subWithBorrow w a b f f.carry
  | or | and | xor => exact sameControl_logic w _ f

theorem sameControl_inc : (inc w a f).2.SameControl f := .status f _ _ _ _ _ _

theorem sameControl_dec : (dec w a f).2.SameControl f := .status f _ _ _ _ _ _

theorem sameControl_unary (op : UnaryOp) : (unary op w a f).2.SameControl f := by
  cases op with
  | inc => exact sameControl_inc w a f
  | dec => exact sameControl_dec w a f
  | neg => exact sameControl_subWithBorrow w 0 a f false
  | not => exact .refl f

/-! ### Shifts and rotates

A count of zero gives the flags back, any other count writes status flags. -/

theorem sameControl_shift (op : ShiftOp) (m : Features) (count : UInt32) :
    (shift op m w a count f).2.SameControl f := by
  cases op <;> exact .ite (.refl f) (.status f _ _ _ _ _ _)

theorem sameControl_shld (count : UInt32) : (shld w a b count f).2.SameControl f :=
  .ite (.refl f) (.status f _ _ _ _ _ _)

theorem sameControl_shrd (count : UInt32) : (shrd w a b count f).2.SameControl f :=
  .ite (.refl f) (.status f _ _ _ _ _ _)

/-! ### Multiplication and decimal adjustment -/

theorem sameControl_mul (m : Features) : (mul m w a b f).2.SameControl f := .status f _ _ _ _ _ _

theorem sameControl_imul (m : Features) : (imul m w a b f).2.SameControl f :=
  .status f _ _ _ _ _ _

theorem sameControl_daa (al : UInt8) : (daa al f).2.SameControl f := .status f _ _ _ _ _ _

theorem sameControl_das (al : UInt8) : (das al f).2.SameControl f := .status f _ _ _ _ _ _

theorem sameControl_aaa (m : Features) (ax : UInt16) : (aaa m ax f).2.SameControl f :=
  .status f _ _ _ _ _ _

theorem sameControl_aas (m : Features) (ax : UInt16) : (aas m ax f).2.SameControl f :=
  .status f _ _ _ _ _ _

theorem sameControl_unpackedFlags (al : UInt8) : (unpackedFlags al f).SameControl f :=
  .status f _ _ _ _ _ _

theorem sameControl_aam {al base : UInt8} {ax : UInt16} {g : Flags}
    (h : aam al base f = some (ax, g)) : g.SameControl f := by
  rw [aam] at h
  split at h
  · cases h
  · cases h
    exact sameControl_unpackedFlags f _

theorem sameControl_aad (ax : UInt16) (base : UInt8) : (aad ax base f).2.SameControl f :=
  sameControl_unpackedFlags f _

end Alu

end X86
