/-!
# Interrupt request lines

Sixteen lines that devices raise and the processor takes, the lowest number first. Devices may act
between any two accesses of the processor, so taking a line is written as a sequence of accesses:
look at the pending lines, then exchange them for the same lines without the one chosen, and look
again if they have changed in between.
-/

namespace X86

/-- The number of an interrupt request line. -/
abbrev Line := Fin 16

/-- The set of pending lines, one bit each. -/
structure IrqLines where
  pending : UInt16 := 0
deriving DecidableEq, Repr, Inhabited

namespace IrqLines

/-- Whether a line is pending. -/
def isPending (q : IrqLines) (n : Line) : Bool := q.pending.toNat.testBit n

/-- Whether any line is pending. -/
def any (q : IrqLines) : Bool := q.pending != 0

/-- The bit of a line. -/
def bit (n : Line) : UInt16 := UInt16.ofNat (1 <<< n.val)

/-- Makes a line pending. -/
def raise (q : IrqLines) (n : Line) : IrqLines := ⟨q.pending ||| bit n⟩

/-- Makes a line not pending. -/
def lower (q : IrqLines) (n : Line) : IrqLines := ⟨q.pending &&& ~~~bit n⟩

theorem toNat_bit (n : Line) : (bit n).toNat = 1 <<< n.val := by
  revert n
  decide

theorem isPending_raise (q : IrqLines) (n k : Line) :
    (q.raise n).isPending k = (q.isPending k || decide (k = n)) := by
  rw [isPending, raise, UInt16.toNat_or, Nat.testBit_or, toNat_bit, Nat.one_shiftLeft,
    Nat.testBit_two_pow, isPending]
  simp [Fin.ext_iff, eq_comm]

theorem isPending_lower (q : IrqLines) (n k : Line) :
    (q.lower n).isPending k = (q.isPending k && decide (k ≠ n)) := by
  have hbit : (~~~bit n).toNat.testBit k.val = decide (k ≠ n) := by
    revert n k
    decide +kernel
  rw [isPending, lower, UInt16.toNat_and, Nat.testBit_and, hbit, isPending]

/-- The lowest pending line. -/
def lowest? (q : IrqLines) : Option Line := (List.finRange 16).find? q.isPending

end IrqLines

/-- How far the processor has come in taking a line. -/
inductive Taker where
  /-- It has not looked yet. -/
  | idle
  /-- It has seen these pending lines. -/
  | seen (q : IrqLines)
  /-- It has taken a line, or found none. -/
  | finished (line : Option Line)
deriving DecidableEq, Repr

namespace Taker

/-- What it knows after it has seen the pending lines. -/
def observe (q : IrqLines) : Taker :=
  if q.any then seen q else finished none

/-- One access to the pending lines. -/
def step (t : Taker) (q : IrqLines) : Taker × IrqLines :=
  match t with
  | idle => (observe q, q)
  | seen s =>
    match s.lowest? with
    | none => (finished none, q)
    | some n => if q = s then (finished (some n), q.lower n) else (observe q, q)
  | finished line => (finished line, q)

/-- The line taken, once there is one. -/
def line? : Taker → Option Line
  | finished line => line
  | _ => none

end Taker

/-- Takes the lowest pending line while nobody interferes, which needs two accesses. -/
def IrqLines.takeLowest (q : IrqLines) : Option Line × IrqLines :=
  let (t, q) := Taker.idle.step q
  let (t, q) := t.step q
  (t.line?, q)

/-- The vector of a line: each of the two interrupt controllers has eight lines and a base. -/
def Line.vector (n : Line) (master slave : UInt8) : UInt8 :=
  if n.val < 8 then master + UInt8.ofNat n.val else slave + UInt8.ofNat (n.val - 8)

end X86
