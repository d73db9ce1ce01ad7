import X86.Cpu.Memory
import X86.Proofs.Memory.Overwrite

/-!
# Segmented memory, byte by byte

A value in one piece is read by one access to the bus, a value that wraps byte by byte. Both read
the same bytes. The bytes of a value never meet, wherever the offset wraps and whatever the A20 gate
does.

* `Location.toNat_offset_add`: where the bytes of a value lie.
* `Cpu.loadPiece_eq_loadBytes`: a piece is its bytes.
* `Cpu.read_eq`: **a read is the check, then the bytes.**
* `Cpu.overwrites_storeBytes`, `Cpu.alters_storeBytes`: what a store changes.
* `Cpu.read8_storeBytes`, `Cpu.loadBytes_eq`: what is stored reads back.
-/

namespace X86

theorem toNat_offsetMask (wide : Bool) :
    (offsetMask wide).toNat + 1 = (if wide then Width.dword else .word).values := by
  cases wide <;> rfl

/-- The bytes of a value lie one behind the other, and wrap at the end of the offsets. -/
theorem Location.toNat_offset_add (l : Location) (i : Nat) :
    (l.add (UInt32.ofNat i)).offset.toNat =
      (l.offset.toNat + i) % (if l.wide then Width.dword else .word).values := by
  have hSum : (l.offset + UInt32.ofNat i).toNat = (l.offset.toNat + i) % 0x100000000 := by
    rw [UInt32.toNat_add, UInt32.toNat_ofNat']
    omega
  change (wrapOffset l.wide (l.offset + UInt32.ofNat i)).toNat = _
  rw [toNat_wrapOffset, hSum]
  cases l.wide with
  | true => exact Nat.mod_mod _ _
  | false => exact Nat.mod_mod_of_dvd _ (by decide)

/-- Before the offsets wrap, byte `i` lies `i` bytes further. -/
theorem Location.offset_add_of_le (l : Location) {i : Nat}
    (h : l.offset.toNat + i ≤ (offsetMask l.wide).toNat) :
    (l.add (UInt32.ofNat i)).offset = l.offset + UInt32.ofNat i := by
  have hMask := toNat_offsetMask l.wide
  have hTop := (offsetMask l.wide).toNat_lt
  rw [← UInt32.toNat_inj, l.toNat_offset_add, Nat.mod_eq_of_lt (by omega),
    UInt32.toNat_add, UInt32.toNat_ofNat']
  omega

/-- Offsets that differ in their low 16 bits give addresses that differ in their low 20 bits. -/
theorem toNat_add_wrapOffset_mod_ne {base x y : UInt32} {wide : Bool}
    (h : x.toNat % 0x10000 ≠ y.toNat % 0x10000) :
    (base + wrapOffset wide x).toNat % 0x100000 ≠ (base + wrapOffset wide y).toNat % 0x100000 := by
  have hBase := base.toNat_lt
  rw [UInt32.toNat_add, UInt32.toNat_add, toNat_wrapOffset, toNat_wrapOffset]
  cases wide with
  | true => simp only [if_true, Width.values]; omega
  | false => simp only [Bool.false_eq_true, if_false, Width.values]; omega

namespace Cpu

variable {c : Cpu} {b : Bus} {l : Location} {w : Width}

/-! ### Reads -/

/-- Real mode allows every access. -/
theorem checkAccess_of_real (hp : c.protectedMode = false) (l : Location) (n : Nat)
    (kind : AccessKind) : c.checkAccess l n kind = .ok () := by
  rw [checkAccess, mayAccess, hp]
  rfl

/-- The bytes of a piece lie one behind the other on the bus. -/
theorem byteAddress_of_le {i : Nat} (h : l.offset.toNat + i ≤ (offsetMask l.wide).toNat) :
    c.byteAddress l i = c.segmentBase l.seg + l.offset + UInt32.ofNat i := by
  rw [byteAddress, l.offset_add_of_le h, UInt32.add_assoc]

theorem joinLittle_bytes_lt (byte : Nat → UInt8) (w : Width) :
    joinLittle byte w.bytes < 0x100000000 := by
  refine Nat.lt_of_lt_of_le (joinLittle_lt byte w.bytes) ?_
  cases w <;> decide

theorem truncate_loadBytes (c : Cpu) (b : Bus) (l : Location) (w : Width) :
    w.truncate (c.loadBytes b l w) = c.loadBytes b l w := by
  refine Width.truncate_eq_self ?_
  rw [loadBytes, UInt32.toNat_ofNat', Nat.mod_eq_of_lt (joinLittle_bytes_lt _ w), w.values_eq,
    w.bits_eq]
  exact joinLittle_lt _ w.bytes

/-- A piece is its bytes. -/
theorem loadPiece_eq_loadBytes
    (h : l.offset.toNat + w.bytes - 1 ≤ (offsetMask l.wide).toNat) :
    c.loadPiece b l w = c.loadBytes b l w := by
  have hByte {i : Nat} (hi : i < w.bytes) :
      c.byteAddress l i = c.segmentBase l.seg + l.offset + UInt32.ofNat i :=
    byteAddress_of_le (by omega)
  have hFirst (hi : 0 < w.bytes) : c.byteAddress l 0 = c.segmentBase l.seg + l.offset :=
    (hByte hi).trans (UInt32.add_zero _)
  have hLast (hi : 3 < w.bytes) :
      c.byteAddress l 3 = c.segmentBase l.seg + l.offset + 2 + 1 := by
    rw [hByte hi, UInt32.add_assoc _ 2 1]
    rfl
  rw [← UInt32.toNat_inj, loadBytes, UInt32.toNat_ofNat',
    Nat.mod_eq_of_lt (joinLittle_bytes_lt _ w)]
  cases w with
  | byte =>
    simp only [joinLittle, Width.bytes, hFirst (by decide)]
    rw [loadPiece, UInt8.toNat_toUInt32]
    rfl
  | word =>
    simp only [joinLittle, Width.bytes, hFirst (by decide), hByte (i := 0 + 1) (by decide)]
    rw [loadPiece, UInt16.toNat_toUInt32, Bus.read16, toNat_word16]
    rfl
  | dword =>
    simp only [joinLittle, Width.bytes, hFirst (by decide), hByte (i := 0 + 1) (by decide),
      hByte (i := 0 + 1 + 1) (by decide), hLast (by decide)]
    rw [loadPiece, Bus.read32, toNat_word32, Bus.read16, toNat_word16, Bus.read16, toNat_word16]
    generalize c.segmentBase l.seg + l.offset = addr
    change _ = (b.read8 addr).toNat + 256 * ((b.read8 (addr + 1)).toNat +
      256 * ((b.read8 (addr + 2)).toNat + 256 * ((b.read8 (addr + 2 + 1)).toNat + 256 * 0)))
    omega

/-- **A read is the check, then the bytes.** -/
theorem read_eq (c : Cpu) (b : Bus) (l : Location) (w : Width) :
    c.read b l w = (c.checkAccess l w.bytes .read).map fun _ => c.loadBytes b l w := by
  rw [read]
  cases c.checkAccess l w.bytes .read with
  | error e => rfl
  | ok _ =>
    change (if l.offset.toNat + w.bytes - 1 ≤ (offsetMask l.wide).toNat then
      Except.ok (c.loadPiece b l w) else .ok (c.loadBytes b l w)) = .ok (c.loadBytes b l w)
    split
    · rename_i hPiece
      rw [loadPiece_eq_loadBytes hPiece]
    · rfl

theorem mayAccess_read_of_write {n : Nat} (h : c.mayAccess l n .write = true) :
    c.mayAccess l n .read = true := by
  have hRead (d : Descriptor) (h : d.allows .write = true) : d.allows .read = true := by
    simp only [Descriptor.allows, Descriptor.isWritable, Descriptor.isReadable,
      Bool.and_eq_true, Bool.or_eq_true] at h ⊢
    exact ⟨h.1, .inl h.2.1⟩
  simp only [mayAccess, Bool.or_eq_true, Bool.and_eq_true] at h ⊢
  exact h.imp_right fun h => ⟨hRead _ h.1, h.2⟩

/-! ### Stores -/

variable {v : UInt32} {n : Nat}

/-- Up to 64 KiB of bytes at a location do not meet. -/
theorem physical_byteAddress_ne (b : Bus) (c : Cpu) (l : Location) {i j : Nat} (hi : i < 0x10000)
    (hj : j < 0x10000) (hij : i ≠ j) :
    b.physical (c.byteAddress l i) ≠ b.physical (c.byteAddress l j) := by
  refine Bus.physical_ne (toNat_add_wrapOffset_mod_ne ?_)
  rw [UInt32.toNat_add, UInt32.toNat_add, UInt32.toNat_ofNat', UInt32.toNat_ofNat']
  omega

theorem overwrites_storeBytes {S : UInt32 → Prop} (v : UInt32)
    (hUnhooked : ∀ i < n, b.windowAt (b.physical (c.byteAddress l i)) = none)
    (hS : ∀ i < n, S (b.physical (c.byteAddress l i))) :
    Bus.Overwrites S b (c.storeBytes b l v n) := by
  induction n with
  | zero => exact .refl b
  | succ n ih =>
    have hBefore := ih (fun i hi => hUnhooked i (Nat.lt_succ_of_lt hi))
      (fun i hi => hS i (Nat.lt_succ_of_lt hi))
    rw [storeBytes_succ]
    refine hBefore.trans ((Bus.overwrites_write8 ?_ _).mono ?_)
    · exact hBefore.unhooked (hUnhooked n (Nat.lt_succ_self n))
    · rintro p rfl
      rw [hBefore.physical_eq]
      exact hS n (Nat.lt_succ_self n)

/-- Stored bytes change nothing else in memory, also where a device takes some of them. -/
theorem alters_storeBytes {S : UInt32 → Prop} (c : Cpu) (b : Bus) (v : UInt32)
    (hS : ∀ i < n, S (b.physical (c.byteAddress l i))) :
    Bus.Alters S b (c.storeBytes b l v n) := by
  induction n with
  | zero => exact .refl b
  | succ n ih =>
    have hBefore := ih fun i hi => hS i (Nat.lt_succ_of_lt hi)
    rw [storeBytes_succ]
    refine hBefore.trans ((Bus.alters_write8 _ _ _).mono ?_)
    rintro p rfl
    rw [hBefore.physical_eq]
    exact hS n (Nat.lt_succ_self n)

/-- Stored bytes read back. -/
theorem read8_storeBytes (v : UInt32) (hBacked : ∀ i < n, b.Backed (c.byteAddress l i))
    (hn : n ≤ 0x10000) {i : Nat} (hi : i < n) :
    (c.storeBytes b l v n).read8 (c.byteAddress l i) = byteOf v i := by
  induction n with
  | zero => exact absurd hi (Nat.not_lt_zero i)
  | succ n ih =>
    have hPrior : ∀ i < n, b.Backed (c.byteAddress l i) := fun i hi =>
      hBacked i (Nat.lt_succ_of_lt hi)
    have hBefore : Bus.Overwrites (fun _ => True) b (c.storeBytes b l v n) :=
      overwrites_storeBytes v (fun i hi => (hPrior i hi).unhooked) fun _ _ => trivial
    have hLast := hBefore.backed (hBacked n (Nat.lt_succ_self n))
    rw [storeBytes_succ]
    rcases Nat.lt_succ_iff_lt_or_eq.1 hi with hLess | rfl
    · rw [(Bus.overwrites_write8 hLast.unhooked _).read8_eq]
      · exact ih hPrior (Nat.le_of_succ_le hn) hLess
      · exact physical_byteAddress_ne _ c l (by omega) hn (Nat.ne_of_lt hLess)
    · exact Bus.read8_write8_self hLast _

theorem loadBytes_eq (h : ∀ i < w.bytes, b.read8 (c.byteAddress l i) = byteOf v i) :
    c.loadBytes b l w = w.truncate v := by
  rw [← UInt32.toNat_inj, loadBytes, joinLittle_congr h, joinLittle_byteOf, UInt32.toNat_ofNat',
    Width.toNat_truncate, Width.values_eq, Width.bits_eq]
  exact Nat.mod_eq_of_lt (Nat.lt_of_le_of_lt (Nat.mod_le _ _) v.toNat_lt)

end Cpu

end X86
