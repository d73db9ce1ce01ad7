import X86.Proofs.Memory.Overwrite

/-!
# The vector table

A real mode vector is four bytes in memory, a far pointer with the low byte of the offset first.

* `Bus.readVector_eq`, `Bus.writeVector_eq`: a vector as its bytes.
* `Bus.vectors_written`: **vectors that are all written alike read back, and nothing beyond the table
  changes.**
-/

namespace X86

theorem word16_bytes (v : UInt16) : word16 v.toUInt8 (v >>> 8).toUInt8 = v := by
  have hv := v.toNat_lt
  have hPlaces : UInt16.toNat 8 % 16 = 8 := rfl
  rw [← UInt16.toNat_inj, toNat_word16, UInt16.toNat_toUInt8, UInt16.toNat_toUInt8,
    UInt16.toNat_shiftRight, hPlaces, Nat.shiftRight_eq_div_pow]
  omega

namespace Bus

variable {b : Bus} {base : UInt32} {v : UInt8} {p : FarPointer}

/-- The bytes of a vector in memory. -/
def vectorBytes (p : FarPointer) : List UInt8 :=
  [p.offset.toUInt8, (p.offset >>> 8).toUInt8, p.segment.toUInt8, (p.segment >>> 8).toUInt8]

theorem writeVector_eq (b : Bus) (base : UInt32) (v : UInt8) (p : FarPointer) :
    b.writeVector base v p = b.writeBytes (vectorAddress base v) (vectorBytes p) := by
  have hNext (a : UInt32) : a + 2 = a + 1 + 1 := (UInt32.add_assoc a 1 1).symm
  simp only [writeVector, write16, vectorBytes, writeBytes, hNext]

/-- A vector is made of its four bytes. -/
theorem readVector_eq (b : Bus) (base : UInt32) (v : UInt8) :
    let byte (i : Nat) := b.read8 (vectorAddress base v + UInt32.ofNat i)
    b.readVector base v =
      { segment := word16 (byte 2) (byte 3), offset := word16 (byte 0) (byte 1) } := by
  intro byte
  have hFirst : vectorAddress base v + UInt32.ofNat 0 = vectorAddress base v := UInt32.add_zero _
  have hLast : vectorAddress base v + 2 + 1 = vectorAddress base v + UInt32.ofNat 3 :=
    UInt32.add_assoc _ 2 1
  simp only [readVector, read16, hLast, byte, hFirst]
  rfl

theorem readVector_eq_of_bytes
    (h : ∀ (i : Nat) (hi : i < 4),
      b.read8 (vectorAddress base v + UInt32.ofNat i) = (vectorBytes p)[i]) :
    b.readVector base v = p := by
  rw [readVector_eq]
  simp only [h 0 (by decide), h 1 (by decide), h 2 (by decide), h 3 (by decide)]
  simp only [vectorBytes, List.getElem_cons_succ, List.getElem_cons_zero, word16_bytes]

theorem readVector_congr {b' : Bus}
    (h : ∀ i < 4, b'.read8 (vectorAddress base v + UInt32.ofNat i) =
      b.read8 (vectorAddress base v + UInt32.ofNat i)) :
    b'.readVector base v = b.readVector base v := by
  rw [readVector_eq, readVector_eq]
  simp only [h 0 (by decide), h 1 (by decide), h 2 (by decide), h 3 (by decide)]

theorem toNat_vectorAddress_add {v i : Nat} (hv : v < 256) (hi : i < 4) :
    (vectorAddress 0 (UInt8.ofNat v) + UInt32.ofNat i).toNat = 4 * v + i := by
  have hShift : ((UInt8.ofNat v).toUInt32 <<< 2).toNat = 4 * v := by
    have hPlaces : UInt32.toNat 2 % 32 = 2 := rfl
    rw [UInt32.toNat_shiftLeft, UInt8.toNat_toUInt32, UInt8.toNat_ofNat', hPlaces,
      Nat.shiftLeft_eq]
    omega
  rw [vectorAddress, UInt32.zero_add, UInt32.toNat_add, hShift, UInt32.toNat_ofNat']
  omega

/-- The first `n` vectors lead to `p`, and nothing beyond the first KiB has changed. -/
theorem vectors_written (p : FarPointer) (hSize : 0x400 ≤ b.ram.size) {n : Nat} (hn : n ≤ 256) :
    ∃ b', (List.range n).foldl (fun b v => b.writeVector 0 (UInt8.ofNat v) p) b = b' ∧
      Overwrites (·.toNat < 0x400) b b' ∧
      ∀ v < n, b'.readVector 0 (UInt8.ofNat v) = p := by
  induction n with
  | zero => exact ⟨b, rfl, .refl b, fun v hv => absurd hv (Nat.not_lt_zero v)⟩
  | succ n ih =>
    obtain ⟨b₁, hFold, hTable, hVectors⟩ := ih (by omega)
    have hPhysical {v i : Nat} (hv : v < 256) (hi : i < 4) :
        (b₁.physical (vectorAddress 0 (UInt8.ofNat v) + UInt32.ofNat i)).toNat = 4 * v + i := by
      rw [b₁.physical_of_low] <;> rw [toNat_vectorAddress_add hv hi]
      omega
    have hBacked (i : Nat) (hi : i < 4) :
        b₁.Backed (vectorAddress 0 (UInt8.ofNat n) + UInt32.ofNat i) := by
      refine backed_of_low ?_ ?_ <;> rw [toNat_vectorAddress_add (by omega) hi]
      · omega
      · rw [hTable.size]
        omega
    have hLast : Overwrites (fun q => ∃ i < 4, q.toNat = 4 * n + i) b₁
        (b₁.writeVector 0 (UInt8.ofNat n) p) := by
      rw [writeVector_eq]
      exact overwrites_writeBytes _ hBacked fun i hi => ⟨i, hi, hPhysical (by omega) hi⟩
    refine ⟨_, ?_, hTable.trans (hLast.mono ?_), ?_⟩
    · rw [List.range_succ, List.foldl_append, hFold]
      rfl
    · rintro q ⟨i, hi, hq⟩
      omega
    · intro v hv
      rcases Nat.lt_succ_iff_lt_or_eq.1 hv with hPrior | rfl
      · refine Eq.trans (readVector_congr fun i hi => hLast.read8_eq ?_) (hVectors v hPrior)
        rintro ⟨j, hj, hSame⟩
        rw [hPhysical (by omega) hi] at hSame
        omega
      · refine readVector_eq_of_bytes fun i hi => ?_
        rw [writeVector_eq]
        refine read8_writeBytes (vectorBytes p) hBacked hi fun j hj hLater hSame => ?_
        have hSame := congrArg UInt32.toNat hSame
        rw [hPhysical (by omega) hj, hPhysical (by omega) hi] at hSame
        omega

end Bus

end X86
