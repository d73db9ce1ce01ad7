import X86.Memory.Bus

/-!
# Stores to installed memory

Where installed memory answers, and not a device in the window, a stored byte reads back. Addresses
that differ in their low 20 bits never meet, whatever the A20 gate does.

* `Bus.Backed`: installed memory answers at an address.
* `Bus.Overwrites`: one bus is another one with other bytes at some physical addresses.
* `Bus.Alters`: moreover there may have been traffic with devices.
* `Bus.overwrites_writeBytes`, `Bus.read8_writeBytes`: **stored bytes read back, and no other byte
  changes.**
-/

namespace X86.Bus

variable {S T : UInt32 → Prop} {b b₁ b' : Bus} {addr a : UInt32} {v : UInt8}

/-- Installed memory answers at the address, not a device. -/
structure Backed (b : Bus) (addr : UInt32) : Prop where
  unhooked : b.windowAt (b.physical addr) = none
  installed : (b.physical addr).toNat < b.ram.size

/-- Below 1 MiB line 20 is low anyway. -/
theorem physical_of_low (b : Bus) {a : UInt32} (h : a.toNat < 0x100000) : b.physical a = a := by
  have hMask : a.toNat &&& 0xFFEFFFFF = a.toNat := by
    have hSelf : a.toNat &&& (2 ^ 20 - 1) = a.toNat := by
      rw [Nat.and_two_pow_sub_one_eq_mod, Nat.mod_eq_of_lt h]
    rw [← hSelf, Nat.and_assoc]
    rfl
  rw [physical]
  split
  · rfl
  · rw [← UInt32.toNat_inj, UInt32.toNat_and]
    exact hMask

/-- The gate drops line 20 and keeps the lines below it. -/
theorem toNat_physical_mod (b : Bus) (addr : UInt32) :
    (b.physical addr).toNat % 0x100000 = addr.toNat % 0x100000 := by
  rw [physical]
  split
  · rfl
  · rw [UInt32.toNat_and, show 0x100000 = 2 ^ 20 from rfl, Nat.and_mod_two_pow]
    have hMask : UInt32.toNat 0xFFEFFFFF % 2 ^ 20 = 2 ^ 20 - 1 := rfl
    rw [hMask, Nat.and_two_pow_sub_one_eq_mod, Nat.mod_mod]

/-- Addresses that differ in their low 20 bits do not meet. -/
theorem physical_ne (h : addr.toNat % 0x100000 ≠ a.toNat % 0x100000) :
    b.physical addr ≠ b.physical a := by
  intro hEq
  refine h ?_
  rw [← b.toNat_physical_mod addr, hEq, b.toNat_physical_mod]

/-- Below the graphics window memory answers wherever it is installed. -/
theorem backed_of_low (hLow : addr.toNat < 0xA0000) (hSize : addr.toNat < b.ram.size) :
    b.Backed addr := by
  have hPhysical : b.physical addr = addr := b.physical_of_low (by omega)
  have hOutside : inWindow addr = false := by
    have hBelow : ¬ windowStart ≤ addr := by
      rw [UInt32.le_iff_toNat_le]
      exact Nat.not_le.2 hLow
    rw [inWindow, decide_eq_false hBelow, Bool.false_and]
  exact ⟨by rw [hPhysical, windowAt, hOutside]; rfl, by rwa [hPhysical]⟩

/-! ### Other bytes -/

/-- `b'` is `b` with other bytes in memory, at most at the physical addresses in `S`. -/
structure Overwrites (S : UInt32 → Prop) (b b' : Bus) : Prop where
  eq : b' = { b with ram := b'.ram }
  size : b'.ram.size = b.ram.size
  outside : ∀ p, ¬ S p → b'.ram.read p = b.ram.read p

namespace Overwrites

theorem refl (b : Bus) : Overwrites S b b := ⟨rfl, rfl, fun _ _ => rfl⟩

theorem trans (h : Overwrites S b b₁) (h' : Overwrites S b₁ b') : Overwrites S b b' where
  eq := by
    rw [h'.eq, h.eq]
  size := h'.size.trans h.size
  outside p hp := (h'.outside p hp).trans (h.outside p hp)

theorem mono (hST : ∀ p, S p → T p) (h : Overwrites S b b') : Overwrites T b b' :=
  ⟨h.eq, h.size, fun p hp => h.outside p fun hS => hp (hST p hS)⟩

theorem physical_eq (h : Overwrites S b b') (addr : UInt32) :
    b'.physical addr = b.physical addr := by
  rw [h.eq]
  rfl

theorem window_eq (h : Overwrites S b b') : b'.window = b.window := by
  rw [h.eq]

theorem windowAt_eq (h : Overwrites S b b') (addr : UInt32) :
    b'.windowAt addr = b.windowAt addr := by
  rw [h.eq]
  rfl

theorem unhooked (h : Overwrites S b b') (hb : b.windowAt (b.physical addr) = none) :
    b'.windowAt (b'.physical addr) = none := by
  rw [h.physical_eq, h.windowAt_eq, hb]

theorem backed (h : Overwrites S b b') (hb : b.Backed addr) : b'.Backed addr where
  unhooked := h.unhooked hb.unhooked
  installed := by rw [h.physical_eq, h.size]; exact hb.installed

theorem read8_eq (h : Overwrites S b b') (hS : ¬ S (b.physical addr)) :
    b'.read8 addr = b.read8 addr := by
  have hTraffic : b'.traffic = b.traffic := by rw [h.eq]
  rw [read8, read8, h.physical_eq, h.windowAt_eq, hTraffic, h.outside _ hS]

end Overwrites

/-- `b'` is `b` after some traffic with devices, and with other bytes in memory, at most at the
physical addresses in `S`. -/
structure Alters (S : UInt32 → Prop) (b b' : Bus) : Prop where
  a20 : b'.a20 = b.a20
  window : b'.window = b.window
  size : b'.ram.size = b.ram.size
  outside : ∀ p, ¬ S p → b'.ram.read p = b.ram.read p

namespace Alters

theorem refl (b : Bus) : Alters S b b := ⟨rfl, rfl, rfl, fun _ _ => rfl⟩

theorem trans (h : Alters S b b₁) (h' : Alters S b₁ b') : Alters S b b' where
  a20 := h'.a20.trans h.a20
  window := h'.window.trans h.window
  size := h'.size.trans h.size
  outside p hp := (h'.outside p hp).trans (h.outside p hp)

theorem mono (hST : ∀ p, S p → T p) (h : Alters S b b') : Alters T b b' :=
  ⟨h.a20, h.window, h.size, fun p hp => h.outside p fun hS => hp (hST p hS)⟩

theorem physical_eq (h : Alters S b b') (addr : UInt32) : b'.physical addr = b.physical addr := by
  rw [physical, h.a20, physical]

/-- What a device answers depends on the traffic, memory does not. -/
theorem read8_eq (h : Alters S b b') (hUnhooked : b.windowAt (b.physical addr) = none)
    (hS : ¬ S (b.physical addr)) : b'.read8 addr = b.read8 addr := by
  have hUnhooked' : b'.windowAt (b.physical addr) = none := by
    rw [windowAt, h.window]
    exact hUnhooked
  rw [read8, read8, h.physical_eq, hUnhooked, hUnhooked']
  exact h.outside _ hS

end Alters

/-! ### Stores -/

/-- A store changes at most the byte at its address, or it is one to a device. -/
theorem alters_write8 (b : Bus) (addr : UInt32) (v : UInt8) :
    Alters (· = b.physical addr) b (b.write8 addr v) where
  a20 := b.a20_write8 addr v
  window := b.window_write8 addr v
  size := b.size_write8 addr v
  outside p hp := by
    simp only [write8]
    split
    · rfl
    · exact (Ram.read_write ..).trans (if_neg fun hSame => hp hSame.1)

theorem write8_of_unhooked (h : b.windowAt (b.physical addr) = none) (v : UInt8) :
    b.write8 addr v = { b with ram := b.ram.write (b.physical addr) v } := by
  simp [write8, h]

/-- Where no device answers, a store changes at most the byte at its address. -/
theorem overwrites_write8 (h : b.windowAt (b.physical addr) = none) (v : UInt8) :
    Overwrites (· = b.physical addr) b (b.write8 addr v) := by
  rw [write8_of_unhooked h]
  refine ⟨rfl, b.ram.size_write _ _, fun p hp => ?_⟩
  rw [Ram.read_write, if_neg fun hSame => hp hSame.1]

theorem read8_write8_self (h : b.Backed addr) (v : UInt8) : (b.write8 addr v).read8 addr = v := by
  have hStored := overwrites_write8 h.unhooked v
  rw [read8, hStored.physical_eq, hStored.windowAt_eq, h.unhooked, write8_of_unhooked h.unhooked]
  exact (Ram.read_write ..).trans (if_pos ⟨rfl, h.installed⟩)

/-! ### Bytes stored one after the other -/

theorem add_ofNat_succ (addr : UInt32) (i : Nat) :
    addr + UInt32.ofNat (i + 1) = addr + 1 + UInt32.ofNat i := by
  rw [UInt32.ofNat_add, UInt32.add_assoc, UInt32.add_comm (UInt32.ofNat i)]
  rfl

theorem overwrites_writeBytes (bytes : List UInt8)
    (hBacked : ∀ i < bytes.length, b.Backed (addr + UInt32.ofNat i))
    (hS : ∀ i < bytes.length, S (b.physical (addr + UInt32.ofNat i))) :
    Overwrites S b (b.writeBytes addr bytes) := by
  induction bytes generalizing b addr with
  | nil => exact .refl b
  | cons v rest ih =>
    have hFirst : addr + UInt32.ofNat 0 = addr := UInt32.add_zero addr
    have hHead : Overwrites S b (b.write8 addr v) := by
      refine (overwrites_write8 ?_ v).mono ?_
      · rw [← hFirst]
        exact (hBacked 0 (Nat.succ_pos _)).unhooked
      · rintro p rfl
        rw [← hFirst]
        exact hS 0 (Nat.succ_pos _)
    refine hHead.trans (ih (fun i hi => ?_) fun i hi => ?_)
    · rw [← add_ofNat_succ]
      exact hHead.backed (hBacked (i + 1) (Nat.succ_lt_succ hi))
    · rw [← add_ofNat_succ, hHead.physical_eq]
      exact hS (i + 1) (Nat.succ_lt_succ hi)

/-- A byte that no later one meets reads back. -/
theorem read8_writeBytes (bytes : List UInt8)
    (hBacked : ∀ i < bytes.length, b.Backed (addr + UInt32.ofNat i))
    {i : Nat} (hi : i < bytes.length)
    (hNe : ∀ j < bytes.length, i < j →
      b.physical (addr + UInt32.ofNat j) ≠ b.physical (addr + UInt32.ofNat i)) :
    (b.writeBytes addr bytes).read8 (addr + UInt32.ofNat i) = bytes[i] := by
  induction bytes generalizing b addr i with
  | nil => cases hi
  | cons v rest ih =>
    have hFirst : addr + UInt32.ofNat 0 = addr := UInt32.add_zero addr
    have hAddr : b.Backed addr := by
      rw [← hFirst]
      exact hBacked 0 (Nat.succ_pos _)
    have hHead := overwrites_write8 hAddr.unhooked v
    have hRest : ∀ j < rest.length, (b.write8 addr v).Backed (addr + 1 + UInt32.ofNat j) := by
      intro j hj
      rw [← add_ofNat_succ]
      exact hHead.backed (hBacked (j + 1) (Nat.succ_lt_succ hj))
    rw [writeBytes]
    cases i with
    | zero =>
      have hOthers : Overwrites (· ≠ b.physical addr) (b.write8 addr v)
          ((b.write8 addr v).writeBytes (addr + 1) rest) := by
        refine overwrites_writeBytes rest hRest fun j hj => ?_
        have hOther := hNe (j + 1) (Nat.succ_lt_succ hj) (Nat.succ_pos _)
        rw [hFirst] at hOther
        rwa [← add_ofNat_succ, hHead.physical_eq]
      rw [hFirst, hOthers.read8_eq (by rw [hHead.physical_eq]; exact fun h => h rfl),
        read8_write8_self hAddr]
      rfl
    | succ i =>
      rw [add_ofNat_succ]
      refine ih hRest (Nat.lt_of_succ_lt_succ hi) ?_
      intro j hj hLater
      rw [hHead.physical_eq, hHead.physical_eq, ← add_ofNat_succ, ← add_ofNat_succ]
      exact hNe (j + 1) (Nat.succ_lt_succ hj) (Nat.succ_lt_succ hLater)

end X86.Bus
