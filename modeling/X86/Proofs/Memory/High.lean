import X86.Proofs.Memory.Overwrite

/-!
# Memory from 1 MiB on

While the A20 gate is closed, an address below 2 MiB reaches the first MiB only: it does not matter
what the memory behind that holds, and a store leaves it alone.

* `Bus.physical_lt`: the closed gate.
* `Bus.read8_withHigh`, `Bus.write8_withHigh`: **reads do not depend on high memory, and stores leave
  it alone.**
-/

namespace X86

namespace Ram

/-- The memory with other bytes from 1 MiB on. -/
def withHigh (m : Ram) (high : Nat → UInt8) : Ram :=
  ⟨⟨Array.ofFn fun i : Fin m.data.size => if i.val < 0x100000 then m.data[i] else high i⟩⟩

variable {m : Ram} {a : UInt32} (high : Nat → UInt8)

@[simp] theorem size_withHigh (m : Ram) : (m.withHigh high).data.size = m.data.size :=
  Array.size_ofFn

theorem getElem_withHigh {i : Nat} (h : i < m.data.size)
    (h' : i < (m.withHigh high).data.size) :
    (m.withHigh high).data[i] = if i < 0x100000 then m.data[i] else high i :=
  Array.getElem_ofFn _

theorem read_withHigh (ha : a.toNat < 0x100000) : (m.withHigh high).read a = m.read a := by
  rw [read, read]
  by_cases h : a.toNat < m.data.size
  · rw [dif_pos h, dif_pos (by simpa using h), getElem_withHigh high h, if_pos ha]
  · rw [dif_neg h, dif_neg (by simpa using h)]

theorem getElem_write {v : UInt8} {i : Nat} (h : i < m.data.size)
    (h' : i < (m.write a v).data.size) :
    (m.write a v).data[i] = if a.toNat = i then v else m.data[i] := by
  by_cases ha : a.toNat < m.data.size
  · simp only [write, dif_pos ha]
    exact getElem_set _ _ _ _ ha _ h
  · simp only [write, dif_neg ha]
    rw [if_neg (by omega)]

theorem ext_of_getElem {m m' : Ram} (hSize : m.data.size = m'.data.size)
    (h : ∀ i (hi : i < m.data.size) (hi' : i < m'.data.size), m.data[i] = m'.data[i]) :
    m = m' :=
  congrArg mk (ByteArray.ext (Array.ext hSize h))

theorem write_withHigh (ha : a.toNat < 0x100000) (v : UInt8) :
    (m.withHigh high).write a v = (m.write a v).withHigh high := by
  have hWrite (m : Ram) : (m.write a v).data.size = m.data.size := m.size_write a v
  refine ext_of_getElem (by simp [hWrite]) fun i hi hi' => ?_
  have h : i < m.data.size := by simpa [hWrite] using hi
  rw [getElem_write (by simpa using h), getElem_withHigh high h,
    getElem_withHigh high (by rwa [hWrite]), getElem_write h]
  by_cases hSame : a.toNat = i
  · rw [if_pos hSame, if_pos (hSame ▸ ha), if_pos hSame]
  · rw [if_neg hSame, if_neg hSame]

end Ram

namespace Bus

/-- The bus with other bytes in memory from 1 MiB on. -/
def withHigh (b : Bus) (high : Nat → UInt8) : Bus := { b with ram := b.ram.withHigh high }

variable {b : Bus} {a : UInt32} (high : Nat → UInt8)

/-- Behind a closed gate an address below 2 MiB ends up in the first one. -/
theorem physical_lt (hGate : b.a20 = false) (ha : a.toNat < 0x200000) :
    (b.physical a).toNat < 0x100000 := by
  rw [physical, hGate, if_neg Bool.false_ne_true, UInt32.toNat_and]
  refine Nat.lt_pow_two_of_testBit (n := 20) _ fun i hi => ?_
  rw [Nat.testBit_and]
  by_cases hLine : i = 20
  · rw [hLine, show (UInt32.toNat 0xFFEFFFFF).testBit 20 = false by decide, Bool.and_false]
  · have hAbove : a.toNat < 2 ^ i :=
      Nat.lt_of_lt_of_le ha (Nat.pow_le_pow_right (by decide : 0 < 2) (by omega : 21 ≤ i))
    rw [Nat.testBit_lt_two_pow hAbove, Bool.false_and]

theorem read8_withHigh (ha : (b.physical a).toNat < 0x100000) :
    (b.withHigh high).read8 a = b.read8 a := by
  have hPhysical : (b.withHigh high).physical a = b.physical a := rfl
  have hWindow : (b.withHigh high).windowAt (b.physical a) = b.windowAt (b.physical a) := rfl
  have hRead : (b.withHigh high).ram.read (b.physical a) = b.ram.read (b.physical a) :=
    Ram.read_withHigh high ha
  rw [read8, read8, hPhysical, hWindow, hRead]
  rfl

theorem write8_withHigh (ha : (b.physical a).toNat < 0x100000) (v : UInt8) :
    (b.withHigh high).write8 a v = (b.write8 a v).withHigh high := by
  change (if (b.windowAt (b.physical a)).isSome then (b.withHigh high).record (.store (b.physical a) v)
    else { b.withHigh high with ram := (b.ram.withHigh high).write (b.physical a) v }) = _
  rw [Ram.write_withHigh high ha]
  simp only [write8]
  split <;> rfl

end Bus

end X86
