import Mathlib.Data.Nat.Digits.Defs
import Mathlib.Tactic.LinearCombination
import X86.Flags

/-!
# Chains of digits

Numbers that are longer than a register are worked on digit by digit, least significant digit first:
each digit finds the flags that the digit below it left, and hands its own flags on. Only the carry
ties two digits together. A step that is exact on one digit, its carry included, is therefore exact
on numbers of any length.

* `chain`: a step on single digits, repeated over two numbers.
* `number`: what a list of digits stands for.
* `number_chain`: **a chain of exact steps is exact**, whatever a digit is and in whichever base. The
  factor `s` is 1 for steps that add and -1 for steps that subtract.
-/

namespace X86.Alu

variable {α : Type} {step : α → α → Flags → α × Flags}

/-- Repeats a step on single digits over two numbers, and threads the flags through. -/
def chain (step : α → α → Flags → α × Flags) : List α → List α → Flags → List α × Flags
  | x :: xs, y :: ys, f =>
    let (z, g) := step x y f
    let (zs, h) := chain step xs ys g
    (z :: zs, h)
  | _, _, f => ([], f)

@[simp] theorem chain_nil (f : Flags) : chain step [] [] f = ([], f) := rfl

@[simp] theorem fst_chain_cons (x y : α) (xs ys : List α) (f : Flags) :
    (chain step (x :: xs) (y :: ys) f).1
      = (step x y f).1 :: (chain step xs ys (step x y f).2).1 := rfl

@[simp] theorem snd_chain_cons (x y : α) (xs ys : List α) (f : Flags) :
    (chain step (x :: xs) (y :: ys) f).2 = (chain step xs ys (step x y f).2).2 := rfl

theorem length_chain {xs ys : List α} (hLen : xs.length = ys.length) (f : Flags) :
    (chain step xs ys f).1.length = xs.length := by
  induction xs generalizing ys f with
  | nil =>
    obtain rfl : ys = [] := List.eq_nil_of_length_eq_zero hLen.symm
    rfl
  | cons x xs ih =>
    cases ys with
    | nil => cases hLen
    | cons y ys =>
      have hRest := ih (Nat.succ.inj hLen) (step x y f).2
      rw [fst_chain_cons, List.length_cons, List.length_cons, hRest]

/-- What a step promises of its digit holds of all digits of a chain. -/
theorem forall_mem_chain {IsDigit Promised : α → Prop}
    (hStep : ∀ x y f, IsDigit x → IsDigit y → Promised (step x y f).1) {xs ys : List α}
    (hx : ∀ x ∈ xs, IsDigit x) (hy : ∀ y ∈ ys, IsDigit y) (f : Flags) :
    ∀ z ∈ (chain step xs ys f).1, Promised z := by
  induction xs generalizing ys f with
  | nil =>
    intro z hz
    cases hz
  | cons x xs ih =>
    cases ys with
    | nil =>
      intro z hz
      cases hz
    | cons y ys =>
      rw [List.forall_mem_cons] at hx hy
      rw [fst_chain_cons, List.forall_mem_cons]
      exact ⟨hStep x y f hx.1 hy.1, ih hx.2 hy.2 (step x y f).2⟩

/-! ### Numbers -/

/-- The number that digits of the given values stand for, the least significant digit first. -/
def number (base : Nat) (value : α → Nat) (xs : List α) : Nat := Nat.ofDigits base (xs.map value)

variable {base : Nat} {value : α → Nat}

@[simp] theorem number_nil : number base value [] = 0 := rfl

@[simp] theorem number_cons (x : α) (xs : List α) :
    number base value (x :: xs) = value x + base * number base value xs := by
  rw [number, List.map_cons, Nat.ofDigits_cons]
  rfl

/-- **A chain of exact steps is exact.** If every step gives its digit and its carry the exact
result on single digits, then all digits and the last carry give the exact result on the numbers. -/
theorem number_chain (s : Int) (IsDigit : α → Prop)
    (hStep : ∀ x y f, IsDigit x → IsDigit y →
      (value (step x y f).1 : Int) + s * ((step x y f).2.carry.toNat * base)
        = value x + s * (value y + f.carry.toNat))
    {xs ys : List α} (hLen : xs.length = ys.length) (hx : ∀ x ∈ xs, IsDigit x)
    (hy : ∀ y ∈ ys, IsDigit y) (f : Flags) :
    (number base value (chain step xs ys f).1 : Int)
        + s * ((chain step xs ys f).2.carry.toNat * base ^ xs.length)
      = number base value xs + s * (number base value ys + f.carry.toNat) := by
  induction xs generalizing ys f with
  | nil =>
    obtain rfl : ys = [] := List.eq_nil_of_length_eq_zero hLen.symm
    simp
  | cons x xs ih =>
    cases ys with
    | nil => cases hLen
    | cons y ys =>
      rw [List.forall_mem_cons] at hx hy
      have hDigit := hStep x y f hx.1 hy.1
      have hRest := ih (Nat.succ.inj hLen) hx.2 hy.2 (step x y f).2
      rw [fst_chain_cons, snd_chain_cons, number_cons, number_cons, number_cons, List.length_cons]
      push_cast
      -- the carry out of this digit cancels against the carry into the rest
      linear_combination hDigit + (base : Int) * hRest

end X86.Alu
