import X86.Interrupt.Lines

/-!
# Pending lines

The lowest pending line, and what taking it leaves of the others.
-/

namespace X86.IrqLines

variable {q : IrqLines} {n k : Line}

/-- There are no bits but those of the lines. -/
theorem pending_eq_zero (h : ∀ n, q.isPending n = false) : q.pending = 0 := by
  refine UInt16.toNat_inj.1 (Nat.eq_of_testBit_eq fun k => ?_)
  rw [UInt16.toNat_zero, Nat.zero_testBit]
  rcases Nat.lt_or_ge k 16 with hk | hk
  · exact h ⟨k, hk⟩
  · exact Nat.testBit_lt_two_pow (Nat.lt_of_lt_of_le q.pending.toNat_lt
      (Nat.pow_le_pow_right (by decide) hk))

/-- Where nothing is pending, no line is. -/
theorem isPending_of_any (h : q.any = false) (n : Line) : q.isPending n = false := by
  have hZero : q.pending = 0 := by simpa [any] using h
  rw [isPending, hZero, UInt16.toNat_zero, Nat.zero_testBit]

theorem isPending_of_lowest (h : q.lowest? = some n) : q.isPending n = true := List.find?_some h

/-- No line below the lowest one is pending. -/
theorem isPending_of_lt_lowest (h : q.lowest? = some n) (hk : k < n) :
    q.isPending k = false := by
  obtain ⟨-, i, hi, hGet, hBefore⟩ := List.find?_eq_some_iff_getElem.1 h
  rw [List.getElem_finRange] at hGet
  have hLt : k.val < i := by
    rw [← hGet] at hk
    exact hk
  have hNot := hBefore k.val hLt
  rw [List.getElem_finRange] at hNot
  simpa using hNot

/-- Where a line is pending there is a lowest one. -/
theorem exists_lowest (h : q.any = true) : ∃ n, q.lowest? = some n ∧ q.isPending n = true := by
  cases hFind : q.lowest? with
  | some n => exact ⟨n, rfl, isPending_of_lowest hFind⟩
  | none =>
    have hNone : q.pending = 0 := pending_eq_zero fun n =>
      Bool.eq_false_iff.2 (List.find?_eq_none.1 hFind n (List.mem_finRange n))
    rw [any, hNone] at h
    cases h

/-- Undisturbed, the lowest line is taken and no other one. -/
theorem takeLowest_eq (h : q.any = true) (hn : q.lowest? = some n) :
    q.takeLowest = (some n, q.lower n) := by
  simp only [takeLowest, Taker.step, Taker.observe, h, hn, if_true, Taker.line?]

end X86.IrqLines
