import Mathlib.Algebra.BigOperators.Intervals
import Mathlib.Algebra.BigOperators.Ring.Finset
import X86.Proofs.Exec.Primitive

/-!
# Segmented memory at the machine

An offset wraps inside its segment, the linear address wraps at 4 GiB, and the A20 gate drops a
line. A value is its bytes all the same, the low byte first, and what is written reads back where
memory is installed.

* `joinLittle_eq_sum`: a little-endian value is a sum.
* `Cpu.byteAddress_eq`: the address of a byte, as numbers.
* `readMem_writeMem`: a value that was written reads back.
* `segmented_memory`: **reads are sums of bytes, writes read back, and no other byte changes.**
-/

namespace X86

theorem joinLittle_eq_sum (byte : Nat → UInt8) (n : Nat) :
    joinLittle byte n = ∑ i ∈ Finset.range n, (byte i).toNat * 2 ^ (8 * i) := by
  induction n generalizing byte with
  | zero => rfl
  | succ n ih =>
    have hShift (i : Nat) : 256 * ((byte (i + 1)).toNat * 2 ^ (8 * i)) =
        (byte (i + 1)).toNat * 2 ^ (8 * (i + 1)) := by
      rw [Nat.mul_succ, Nat.pow_add, Nat.mul_left_comm, Nat.mul_comm (2 ^ (8 * i))]
    rw [joinLittle, ih, Finset.mul_sum, Finset.sum_range_succ',
      Finset.sum_congr rfl fun i _ => hShift i, Nat.add_comm, Nat.mul_zero, Nat.pow_zero,
      Nat.mul_one]

namespace Cpu

variable (c : Cpu) (b : Bus) (l : Location) (w : Width)

/-- The offset wraps inside the segment, the sum at 4 GiB. -/
theorem byteAddress_eq (i : Nat) :
    c.byteAddress l i = c.segmentBase l.seg +
      UInt32.ofNat ((l.offset.toNat + i) % if l.wide then 2 ^ 32 else 2 ^ 16) := by
  have hOffset : (l.add (UInt32.ofNat i)).offset =
      UInt32.ofNat ((l.offset.toNat + i) % if l.wide then 2 ^ 32 else 2 ^ 16) := by
    rw [← UInt32.toNat_inj, l.toNat_offset_add, UInt32.toNat_ofNat']
    cases l.wide with
    | true => exact (Nat.mod_mod _ _).symm
    | false => exact (Nat.mod_eq_of_lt (Nat.lt_trans (Nat.mod_lt _ (by decide)) (by decide))).symm
  rw [byteAddress, hOffset]

theorem toNat_loadBytes :
    (c.loadBytes b l w).toNat =
      ∑ i ∈ Finset.range w.bytes, (b.read8 (c.byteAddress l i)).toNat * 2 ^ (8 * i) := by
  rw [loadBytes, UInt32.toNat_ofNat', Nat.mod_eq_of_lt (joinLittle_bytes_lt _ w), joinLittle_eq_sum]

/-- The physical addresses of a value. -/
def Touches (p : UInt32) : Prop := ∃ i < w.bytes, p = b.physical (c.byteAddress l i)

end Cpu

namespace Exec

variable {m : Machine} {l : Location} {w : Width} {v : UInt32}

theorem readMem_writeMem (hMay : m.cpu.mayAccess l w.bytes .write = true)
    (hBacked : ∀ i < w.bytes, m.bus.Backed (m.cpu.byteAddress l i)) {m' : Machine}
    (h : writeMem l w v m = .ok () m') : readMem l w m' = .ok (w.truncate v) m' := by
  rw [writeMem_eq, if_pos hMay] at h
  cases h
  rw [readMem_eq, if_pos (Cpu.mayAccess_read_of_write hMay)]
  refine congrArg (EStateM.Result.ok · _) (Cpu.loadBytes_eq fun i hi => ?_)
  exact Cpu.read8_storeBytes v hBacked (by cases w <;> decide) hi

/-- **Reads are sums of bytes, the low byte first, in one piece or not. Where memory is installed a
write reads back, and it changes no other byte.** -/
theorem segmented_memory (hWindow : m.bus.window = none) (l : Location) (w : Width) :
    (∀ i, m.cpu.byteAddress l i = m.cpu.segmentBase l.seg +
        UInt32.ofNat ((l.offset.toNat + i) % if l.wide then 2 ^ 32 else 2 ^ 16)) ∧
      (m.cpu.mayAccess l w.bytes .read = true →
        ∃ v, readMem l w m = .ok v m ∧ v.toNat =
          ∑ i ∈ Finset.range w.bytes, (m.bus.read8 (m.cpu.byteAddress l i)).toNat * 2 ^ (8 * i)) ∧
      (l.offset.toNat + w.bytes - 1 ≤ (offsetMask l.wide).toNat →
        m.cpu.loadPiece m.bus l w = m.cpu.loadBytes m.bus l w) ∧
      ∀ v, m.cpu.mayAccess l w.bytes .write = true →
        ∃ b, writeMem l w v m = .ok () { m with bus := b } ∧
          Bus.Overwrites (m.cpu.Touches m.bus l w) m.bus b ∧
          ((∀ i < w.bytes, (m.bus.physical (m.cpu.byteAddress l i)).toNat < m.bus.ram.size) →
            readMem l w { m with bus := b } = .ok (w.truncate v) { m with bus := b }) := by
  refine ⟨m.cpu.byteAddress_eq l, fun hMay => ?_, Cpu.loadPiece_eq_loadBytes, fun v hMay => ?_⟩
  · exact ⟨_, (readMem_eq l w m).trans (if_pos hMay), m.cpu.toNat_loadBytes m.bus l w⟩
  · have hUnhooked (i : Nat) : m.bus.windowAt (m.bus.physical (m.cpu.byteAddress l i)) = none :=
      Bus.windowAt_eq_none hWindow _
    have hWrite := (writeMem_eq l w v m).trans (if_pos hMay)
    refine ⟨_, hWrite, ?_, fun hInstalled => ?_⟩
    · exact Cpu.overwrites_storeBytes v (fun i _ => hUnhooked i) fun i hi => ⟨i, hi, rfl⟩
    · exact readMem_writeMem hMay (fun i hi => ⟨hUnhooked i, hInstalled i hi⟩) hWrite

/-- A double word whose offset wraps in the middle. -/
theorem segmented_memory_wrapped :
    let m : Machine :=
      { cpu :=
          { caches := (SegMap.replicate (Descriptor.realMode 0)).set .ds
              { base := 4, limit := 0xFFFF, access := 0x93 } }
        bus := { ram := ⟨⟨#[0, 0, 1, 2, 3, 4, 0, 0]⟩⟩ } }
    let l : Location := .of .ds 0xFFFFFFFE true
    m.bus.window = none ∧ m.cpu.mayAccess l Width.dword.bytes .read = true ∧
      m.cpu.mayAccess l Width.dword.bytes .write = true ∧
      (∀ i < Width.dword.bytes,
        (m.bus.physical (m.cpu.byteAddress l i)).toNat < m.bus.ram.size) ∧
      readMem l .dword m = .ok 0x04030201 m ∧
      ∃ b, writeMem l .dword 0xA1B2C3D4 m = .ok () { m with bus := b } ∧
        readMem l .dword { m with bus := b } = .ok 0xA1B2C3D4 { m with bus := b } := by
  intro m l
  have hRead : m.cpu.mayAccess l Width.dword.bytes .read = true := by decide
  have hWrite : m.cpu.mayAccess l Width.dword.bytes .write = true := by decide
  have hInstalled : ∀ i < Width.dword.bytes,
      (m.bus.physical (m.cpu.byteAddress l i)).toNat < m.bus.ram.size := by decide +kernel
  obtain ⟨-, hSum, -, hStore⟩ := segmented_memory (m := m) rfl l .dword
  obtain ⟨v, hValue, hv⟩ := hSum hRead
  obtain ⟨b, hStored, -, hBack⟩ := hStore 0xA1B2C3D4 hWrite
  have hKnown : v = 0x04030201 := UInt32.toNat_inj.1 (hv.trans (by decide +kernel))
  exact ⟨rfl, hRead, hWrite, hInstalled, hKnown ▸ hValue, b, hStored, hBack hInstalled⟩

end Exec

end X86
