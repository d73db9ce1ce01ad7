import Mathlib.Algebra.Group.Nat.Defs
import X86.Machine.Load
import X86.Proofs.Memory.Overwrite

/-!
# Images in memory

A program is stored byte by byte behind its address.

* `Bus.backed_of_fits`: an image that fits is stored to installed memory throughout.
* `Bus.read8_writeBytes_of_low`: below 1 MiB no two bytes meet, whatever the gate.
* `Machine.read8_of_loadCom`, `Machine.a20_of_loadCom`: a loaded program is in memory, and the gate is
  as it was.
-/

namespace X86

namespace Bus

variable {b : Bus} {addr : UInt32} {bytes : List UInt8}

theorem a20_writeBytes (b : Bus) (addr : UInt32) (bytes : List UInt8) :
    (b.writeBytes addr bytes).a20 = b.a20 := by
  induction bytes generalizing b addr with
  | nil => rfl
  | cons v rest ih => exact (ih _ _).trans (a20_write8 b addr v)

theorem toNat_add_ofNat {n i : Nat} (hFits : addr.toNat + n ≤ 2 ^ 32) (hi : i < n) :
    (addr + UInt32.ofNat i).toNat = addr.toNat + i := by
  rw [UInt32.toNat_add, UInt32.toNat_ofNat']
  omega

/-- The gate never raises an address. -/
theorem toNat_physical_le (b : Bus) (addr : UInt32) : (b.physical addr).toNat ≤ addr.toNat := by
  rw [physical]
  split
  · exact Nat.le_refl _
  · exact UInt32.le_iff_toNat_le.1 UInt32.and_le_left

/-- The size of an image is measured before the gate, but no byte can leave the memory by it. -/
theorem backed_of_fits (h : b.window = none) {n : Nat} (hFits : addr.toNat + n ≤ b.ram.size)
    {i : Nat} (hi : i < n) : b.Backed (addr + UInt32.ofNat i) := by
  refine ⟨windowAt_eq_none h _, Nat.lt_of_le_of_lt (b.toNat_physical_le _) ?_⟩
  have hWrapped : (addr + UInt32.ofNat i).toNat ≤ addr.toNat + i := by
    rw [UInt32.toNat_add, UInt32.toNat_ofNat']
    omega
  omega

/-- Below 1 MiB no two bytes meet, whatever the A20 gate does. -/
theorem read8_writeBytes_of_low (h : b.window = none)
    (hSize : addr.toNat + bytes.length ≤ b.ram.size)
    (hLow : addr.toNat + bytes.length ≤ 0x100000) {i : Nat} (hi : i < bytes.length) :
    (b.writeBytes addr bytes).read8 (addr + UInt32.ofNat i) = bytes[i] := by
  refine read8_writeBytes _ (fun j => backed_of_fits h hSize) hi fun j hj hLater => physical_ne ?_
  rw [toNat_add_ofNat (by omega) hj, toNat_add_ofNat (by omega) hi]
  omega

end Bus

/-! ### Programs of one segment -/

namespace Machine

variable {m m' : Machine} {image : List UInt8}

theorem loadCom_eq_ok :
    m.loadCom image = .ok m' ↔
      programStart.linear.toNat + image.length ≤ m.bus.ram.size ∧
        m' = (m.placeImage image programStart).setUpSegments programStart.segment := by
  rw [loadCom, loadImage, imageAddress?]
  by_cases hFits : programStart.linear.toNat + image.length ≤ m.bus.ram.size
  · rw [if_neg (Nat.not_lt.2 hFits)]
    constructor
    · intro h
      cases h
      exact ⟨hFits, rfl⟩
    · rintro ⟨-, rfl⟩
      rfl
  · rw [if_pos (Nat.lt_of_not_le hFits)]
    constructor
    · intro h
      cases h
    · rintro ⟨h, -⟩
      exact absurd h hFits

/-- A loaded program is in memory, if it stays below 1 MiB. -/
theorem read8_of_loadCom (h : m.loadCom image = .ok m') (hWindow : m.bus.window = none)
    (hLow : programStart.linear.toNat + image.length ≤ 0x100000) {i : Nat}
    (hi : i < image.length) :
    m'.bus.read8 (programStart.linear + UInt32.ofNat i) = image[i] := by
  obtain ⟨hFits, rfl⟩ := loadCom_eq_ok.1 h
  exact Bus.read8_writeBytes_of_low hWindow hFits hLow hi

/-- Loading a program leaves the A20 gate as it is. -/
theorem a20_of_loadCom (h : m.loadCom image = .ok m') : m'.bus.a20 = m.bus.a20 := by
  obtain ⟨-, rfl⟩ := loadCom_eq_ok.1 h
  exact Bus.a20_writeBytes ..

end Machine

end X86
