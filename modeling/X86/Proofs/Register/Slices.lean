import Mathlib.Data.Nat.Init
import X86.Register.File

/-!
# Registers as slices of one store

The registers that operands name overlap: a general register shows its low word under another name,
four of them also the two bytes of that word, and segment registers stand apart. Here all of them
are slices of a store of single bits, in which writing and reading say nothing but which bits are
meant.

* `Register.slice`: the bits that a register shows.
* `Registers.bits_write`: **writing a register replaces the bits of its slice** and no others.
* `Registers.toNat_read`: reading a register collects them.
* `Registers.read_writeAll`: **after any writes every register reads as the store of bits does.**
-/

namespace X86

/-! ### The store -/

/-- What the bits belong to: a general register has 32 of them, a segment register 16. -/
inductive Cell where
  | general (r : Gpr)
  | segment (s : SegReg)
deriving DecidableEq, Repr

/-- Successive bits of a cell. -/
structure Slice where
  cell : Cell
  start : Nat
  length : Nat

/-- Whether bit `n` of the cell belongs to the slice. -/
def Slice.Has (l : Slice) (c : Cell) (n : Nat) : Prop :=
  c = l.cell ∧ l.start ≤ n ∧ n < l.start + l.length

instance (l : Slice) (c : Cell) (n : Nat) : Decidable (l.Has c n) :=
  inferInstanceAs (Decidable (_ ∧ _ ∧ _))

/-- The bits that a register shows. -/
def Register.slice : Register → Slice
  | byte .al => ⟨.general .ax, 0, 8⟩
  | byte .cl => ⟨.general .cx, 0, 8⟩
  | byte .dl => ⟨.general .dx, 0, 8⟩
  | byte .bl => ⟨.general .bx, 0, 8⟩
  | byte .ah => ⟨.general .ax, 8, 8⟩
  | byte .ch => ⟨.general .cx, 8, 8⟩
  | byte .dh => ⟨.general .dx, 8, 8⟩
  | byte .bh => ⟨.general .bx, 8, 8⟩
  | word r => ⟨.general r, 0, 16⟩
  | dword r => ⟨.general r, 0, 32⟩
  | seg s => ⟨.segment s, 0, 16⟩

/-- A store of single bits. -/
def BitStore : Type := Cell → Nat → Bool

namespace BitStore

/-- Replaces the bits that a register shows by the low bits of `v`. -/
def write (b : BitStore) (r : Register) (v : UInt32) : BitStore := fun c n =>
  if r.slice.Has c n then bitAt v (n - r.slice.start) else b c n

/-- The number whose bits are those that a register shows. -/
def read (b : BitStore) (r : Register) : Nat :=
  Nat.ofBits fun i : Fin r.slice.length => b r.slice.cell (r.slice.start + i)

/-- Writes in sequence. -/
def writeAll (b : BitStore) (writes : List (Register × UInt32)) : BitStore :=
  writes.foldl (fun b w => b.write w.1 w.2) b

end BitStore

namespace Registers

/-- Writes in sequence. -/
def writeAll (g : Registers) (writes : List (Register × UInt32)) : Registers :=
  writes.foldl (fun g w => g.write w.1 w.2) g

/-- The bits of the general and segment registers. -/
def bits (g : Registers) : BitStore
  | .general r, n => bitAt (g.dword r) n
  | .segment s, n => (g.selector s).toNat.testBit n

end Registers

/-! ### Slices -/

theorem Register.slice_byte (r : ByteReg) :
    (byte r).slice = ⟨.general r.parent, if r.isHigh then 8 else 0, 8⟩ := by
  cases r <;> rfl

theorem Register.slice_length (r : Register) : r.slice.length = r.width.bits := by
  cases r with
  | byte r => rw [slice_byte]; rfl
  | word r | dword r | seg s => rfl

theorem Register.slice_end_le (r : Register) : r.slice.start + r.slice.length ≤ 32 := by
  cases r with
  | byte r => cases r <;> decide
  | word r => exact (by decide : 0 + 16 ≤ 32)
  | dword r => exact Nat.le_refl 32
  | seg s => exact (by decide : 0 + 16 ≤ 32)

theorem testBit_toUInt8 (v : UInt32) {k : Nat} (hk : k < 8) :
    v.toUInt8.toNat.testBit k = bitAt v k := by
  rw [UInt32.toNat_toUInt8, Nat.testBit_mod_two_pow, decide_eq_true hk, Bool.true_and, bitAt]

theorem testBit_toUInt16 (v : UInt32) {k : Nat} (hk : k < 16) :
    v.toUInt16.toNat.testBit k = bitAt v k := by
  rw [UInt32.toNat_toUInt16, Nat.testBit_mod_two_pow, decide_eq_true hk, Bool.true_and, bitAt]

theorem testBit_of_le (x : UInt16) {k : Nat} (hk : 16 ≤ k) : x.toNat.testBit k = false :=
  Nat.testBit_lt_two_pow (Nat.lt_of_lt_of_le x.toNat_lt (Nat.pow_le_pow_right (by decide) hk))

namespace Registers

variable (g : Registers) (r : Register) (v : UInt32) (c : Cell) {n : Nat}

/-! ### Writing -/

theorem bits_setGpr (p : Gpr) (x : UInt32) (n : Nat) :
    ({ g with gprs := g.gprs.set p x } : Registers).bits c n =
      if c = .general p then bitAt x n else g.bits c n := by
  cases c with
  | segment s => rfl
  | general q =>
    by_cases hq : q = p
    · subst hq
      rw [if_pos rfl, bits, dword, Gprs.get_set_self]
    · rw [if_neg (fun h => hq (Cell.general.inj h)), bits, dword, Gprs.get_set_ne _ _ hq]
      rfl

theorem bits_setSelector (s : SegReg) (x : UInt16) (n : Nat) :
    (g.setSelector s x).bits c n = if c = .segment s then x.toNat.testBit n else g.bits c n := by
  cases c with
  | general q => rfl
  | segment t =>
    by_cases ht : t = s
    · subst ht
      rw [if_pos rfl, bits, selector_setSelector]
    · rw [if_neg (fun h => ht (Cell.segment.inj h)), bits, selector, setSelector,
        SegMap.get_set_ne _ _ ht]
      rfl

/-- There are no bits beyond the cells. -/
theorem bits_of_le (hn : 32 ≤ n) : g.bits c n = false := by
  cases c with
  | general p => exact bitAt_of_le _ hn
  | segment s => exact testBit_of_le (g.selector s) (by omega)

/-- A cell in which a slice has been replaced, among cells that have been left alone. -/
theorem ite_cell {b : BitStore} {x y : Bool} (d : Cell) (start length : Nat)
    (h : y = if start ≤ n ∧ n < start + length then x else b d n) :
    (if c = d then y else b c n) = if Slice.Has ⟨d, start, length⟩ c n then x else b c n := by
  by_cases hc : c = d
  · subst hc
    rw [if_pos rfl, h]
    by_cases hn : start ≤ n ∧ n < start + length
    · rw [if_pos hn, if_pos ⟨rfl, hn⟩]
    · rw [if_neg hn, if_neg fun h => hn h.2]
  · rw [if_neg hc, if_neg fun h => hc h.1]

/-- **Writing a register replaces the bits of its slice** and no others. -/
theorem bits_write : (g.write r v).bits = g.bits.write r v := by
  funext c n
  rw [BitStore.write]
  rcases Nat.lt_or_ge n 32 with hn | hn
  · cases r with
    | byte r =>
      rw [Register.slice_byte, write, setByte, bits_setGpr]
      refine ite_cell c (.general r.parent) _ 8 ?_
      cases r.isHigh with
      | false =>
        simp only [Bool.false_eq_true, if_false, bitAt_replaceLow _ _ hn]
        by_cases h8 : n < 8
        · rw [if_pos h8, if_pos (by omega), testBit_toUInt8 v h8]
          rfl
        · rw [if_neg h8, if_neg (by omega)]
          rfl
      | true =>
        simp only [if_true, bitAt_replaceHigh _ _ hn]
        by_cases h8 : 8 ≤ n ∧ n < 16
        · rw [if_pos h8, if_pos (by omega), testBit_toUInt8 v (by omega)]
        · rw [if_neg h8, if_neg (by omega)]
          rfl
    | word r =>
      rw [write, setWord, bits_setGpr]
      refine ite_cell c (.general r) 0 16 ?_
      rw [bitAt_replaceWord _ _ hn]
      by_cases h16 : n < 16
      · rw [if_pos h16, if_pos (by omega), testBit_toUInt16 v h16]
        rfl
      · rw [if_neg h16, if_neg (by omega)]
        rfl
    | dword r =>
      rw [write, setDword, bits_setGpr]
      refine ite_cell c (.general r) 0 32 ?_
      rw [if_pos (by omega)]
      rfl
    | seg s =>
      rw [write, bits_setSelector]
      refine ite_cell c (.segment s) 0 16 ?_
      by_cases h16 : n < 16
      · rw [if_pos (by omega), testBit_toUInt16 v h16]
        rfl
      · rw [if_neg (by omega)]
        exact (testBit_of_le _ (by omega)).trans (testBit_of_le (g.selector s) (by omega)).symm
  · have hOut : ¬ r.slice.Has c n := fun h => by
      have hEnd := r.slice_end_le
      have hLt := h.2.2
      omega
    rw [if_neg hOut, bits_of_le _ _ hn, bits_of_le _ _ hn]

/-- A write touches nothing but the general and segment registers. -/
theorem write_eq : g.write r v =
    { g with gprs := (g.write r v).gprs, selectors := (g.write r v).selectors } := by
  cases r <;> rfl

/-! ### Reading -/

/-- Bit `n` of a register is bit `n` of its slice. -/
theorem bitAt_read (hn : n < r.slice.length) :
    bitAt (g.read r) n = g.bits r.slice.cell (r.slice.start + n) := by
  cases r with
  | byte r =>
    rw [Register.slice_byte] at hn
    have hn : n < 8 := hn
    rw [Register.slice_byte, read, bitAt, UInt8.toNat_toUInt32, byte]
    cases r.isHigh with
    | false =>
      simp only [Bool.false_eq_true, if_false, testBit_toUInt8 _ hn, Nat.zero_add]
      rfl
    | true =>
      simp only [if_true, testBit_toUInt8 _ hn, bits, dword]
      rw [bitAt, UInt32.toNat_shiftRight]
      exact Nat.testBit_shiftRight _
  | word r =>
    rw [read, bitAt, UInt16.toNat_toUInt32, word, testBit_toUInt16 _ hn, Register.slice,
      Nat.zero_add]
    rfl
  | dword r =>
    rw [Register.slice, Nat.zero_add]
    rfl
  | seg s =>
    rw [read, bitAt, UInt16.toNat_toUInt32, Register.slice, Nat.zero_add]
    rfl

/-- Reading a register collects the bits of its slice. -/
theorem toNat_read : (g.read r).toNat = g.bits.read r := by
  refine Nat.eq_of_testBit_eq fun n => ?_
  rw [BitStore.read]
  by_cases hn : n < r.slice.length
  · rw [Nat.testBit_ofBits_lt _ _ hn]
    exact bitAt_read g r hn
  · have hWide : ¬ n < r.width.bits := by rwa [Register.slice_length] at hn
    rw [Nat.testBit_ofBits_ge _ _ (Nat.le_of_not_lt hn), ← truncate_read, Width.toNat_truncate,
      Width.values_eq, Nat.one_shiftLeft, Nat.testBit_mod_two_pow, decide_eq_false hWide,
      Bool.false_and]

/-! ### Sequences of writes -/

theorem bits_writeAll (writes : List (Register × UInt32)) :
    (g.writeAll writes).bits = g.bits.writeAll writes := by
  induction writes generalizing g with
  | nil => rfl
  | cons w writes ih =>
    calc
      (g.writeAll (w :: writes)).bits = (g.write w.1 w.2).bits.writeAll writes := ih _
      _ = g.bits.writeAll (w :: writes) := by rw [bits_write]; rfl

theorem writeAll_eq (writes : List (Register × UInt32)) :
    g.writeAll writes = { g with
      gprs := (g.writeAll writes).gprs, selectors := (g.writeAll writes).selectors } := by
  induction writes generalizing g with
  | nil => rfl
  | cons w writes ih =>
    rw [writeAll, List.foldl_cons, ← writeAll, ih, write_eq]

/-- **After any writes every register reads as the store of bits does.** A further write changes
the bits of its slice and none outside, in its own cell or in another one, and no sequence of
writes reaches the rest of the register file. -/
theorem read_writeAll (writes : List (Register × UInt32)) :
    (∀ r, ((g.writeAll writes).read r).toNat = (g.bits.writeAll writes).read r) ∧
    (∀ r v c n, ((g.writeAll writes).write r v).bits c n =
      if r.slice.Has c n then bitAt v (n - r.slice.start) else (g.writeAll writes).bits c n) ∧
    ∃ gprs selectors, g.writeAll writes = { g with gprs := gprs, selectors := selectors } := by
  refine ⟨fun r => ?_, fun r v c n => ?_, _, _, writeAll_eq g writes⟩
  · rw [toNat_read, bits_writeAll]
  · rw [bits_write]
    rfl

/-- A byte in the middle shows in the word and the double word around it. -/
example : let g := ({} : Registers).writeAll [(.dword .ax, 0x11223344), (.byte .ah, 0xAB),
      (.seg .fs, 0x5566), (.word .sp, 0x7788)]
    g.read (.dword .ax) = 0x1122AB44 ∧ g.read (.byte .al) = 0x44 ∧
      g.read (.dword .sp) = 0x7788 ∧ g.read (.seg .fs) = 0x5566 := by decide

end Registers

end X86
