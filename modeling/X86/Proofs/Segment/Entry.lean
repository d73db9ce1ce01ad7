import X86.Proofs.Machine.Protection

/-!
# Entries of descriptor tables

An entry spreads the base over three places and the limit over two, the upper one beside the flags.
`TableEntry.byte` lays the fields out as the architecture does, and decoding has to collect them
again. What was decoded then decides about ranges of offsets.

* `TableEntry.ofBytes_byte`: **decoding an entry returns the fields that were laid out**.
* `Descriptor.contains_iff_bytes`: **a range lies inside a segment exactly if each of its bytes
  does**, on both sides of every limit.
* `Descriptor.entry_decodes`: both together.
-/

namespace X86

/-- The fields of a code or data segment, as a table holds them. -/
structure TableEntry where
  base : UInt32
  /-- The limit in bytes or in pages. -/
  limit : Nat
  access : UInt8
  /-- From the low bit on: free for the system, long mode, D/B, granularity. -/
  flags : Nat
  limit_lt : limit < 0x100000
  flags_lt : flags < 16

namespace TableEntry

/-- The bytes of the entry in memory. -/
def byte (e : TableEntry) : Nat → UInt8
  | 0 => UInt8.ofNat e.limit
  | 1 => UInt8.ofNat (e.limit / 0x100)
  | 2 => byteOf e.base 0
  | 3 => byteOf e.base 1
  | 4 => byteOf e.base 2
  | 5 => e.access
  | 6 => UInt8.ofNat (16 * e.flags + e.limit / 0x10000)
  | 7 => byteOf e.base 3
  | _ => 0

variable (e : TableEntry)

/-! ### Decoding -/

/-- A word from two parts that do not overlap. -/
theorem toNat_join {low high s : UInt32} {k : Nat} (hs : s.toNat % 32 = k)
    (hLow : low.toNat < 1 <<< k) (hHigh : high.toNat <<< k < 0x100000000) :
    (high <<< s ||| low).toNat = high.toNat <<< k + low.toNat := by
  rw [Nat.one_shiftLeft] at hLow
  rw [UInt32.toNat_or, UInt32.toNat_shiftLeft, hs, Nat.mod_eq_of_lt hHigh, Nat.shiftLeft_eq,
    Nat.mul_comm, Nat.two_pow_add_eq_or_of_lt hLow]

theorem limit_high : e.limit / 0x10000 < 16 := by
  have hLimit := e.limit_lt
  omega

theorem toNat_byte_six : (e.byte 6).toNat = 16 * e.flags + e.limit / 0x10000 := by
  have hFlags := e.flags_lt
  have hHigh := e.limit_high
  rw [byte, UInt8.toNat_ofNat']
  omega

/-- The flags are the high half of the byte that they share with the limit. -/
theorem testBit_byte_six (n : Nat) : (e.byte 6).toNat.testBit (n + 4) = e.flags.testBit n := by
  have hSplit := Nat.testBit_two_pow_mul_add e.flags (i := 4) e.limit_high (n + 4)
  rwa [if_neg (by omega), Nat.add_sub_cancel, ← toNat_byte_six] at hSplit

theorem base_ofBytes : (Descriptor.ofBytes e.byte).base = e.base := by
  have hBase := e.base.toNat_lt
  refine UInt32.toNat_inj.1 ?_
  rw [Descriptor.ofBytes, toNat_word32, toNat_word16, toNat_word16]
  simp only [byte, toNat_byteOf, Nat.shiftRight_eq_div_pow]
  omega

/-- With the granularity bit the limit is the last byte of the last page. -/
theorem limit_ofBytes : (Descriptor.ofBytes e.byte).limit.toNat =
    if e.flags.testBit 3 then e.limit * 4096 + 4095 else e.limit := by
  have hLimit := e.limit_lt
  have hNibble : ((e.byte 6).toUInt32 &&& 0x0F).toNat = e.limit / 0x10000 := by
    have hHigh := e.limit_high
    rw [UInt32.toNat_and, UInt8.toNat_toUInt32, toNat_byte_six]
    exact (Nat.and_two_pow_sub_one_eq_mod _ 4).trans (by omega)
  have hLow : (word16 (e.byte 0) (e.byte 1)).toUInt32.toNat = e.limit % 0x10000 := by
    rw [UInt16.toNat_toUInt32, toNat_word16, byte, byte, UInt8.toNat_ofNat', UInt8.toNat_ofNat']
    omega
  have hSize : ((word16 (e.byte 0) (e.byte 1)).toUInt32 |||
      ((e.byte 6).toUInt32 &&& 0x0F) <<< 16).toNat = e.limit := by
    rw [UInt32.or_comm, toNat_join (k := 16) rfl (by omega) (by omega), hLow, hNibble]
    omega
  have hPages := e.testBit_byte_six 3
  rw [Descriptor.ofBytes, hPages]
  cases e.flags.testBit 3 with
  | false => exact hSize
  | true =>
    simp only [if_true]
    rw [toNat_join (k := 12) rfl (by decide) (by omega), hSize, Nat.shiftLeft_eq]
    rfl

/-- **Decoding an entry returns the fields that were laid out.** -/
theorem ofBytes_byte :
    (Descriptor.ofBytes e.byte).base = e.base ∧ (Descriptor.ofBytes e.byte).access = e.access ∧
      (Descriptor.ofBytes e.byte).big = e.flags.testBit 2 ∧
      (Descriptor.ofBytes e.byte).limit.toNat =
        if e.flags.testBit 3 then e.limit * 4096 + 4095 else e.limit :=
  ⟨e.base_ofBytes, rfl, e.testBit_byte_six 2, e.limit_ofBytes⟩

end TableEntry

namespace Descriptor

variable (d : Descriptor) {offset : UInt32} {len : Nat}

/-! ### Ranges -/

/-- A byte lies inside up to the limit, and where the segment grows down above it. -/
theorem contains_one_iff (offset : UInt32) :
    d.contains offset 1 = true ↔
      if d.isExpandDown then d.limit.toNat < offset.toNat ∧ offset.toNat ≤ d.topOffset
      else offset.toNat ≤ d.limit.toNat := by
  cases hDown : d.isExpandDown with
  | false => exact contains_iff_of_up hDown offset 1
  | true => exact contains_iff_of_down hDown offset 1

/-- The offset of a byte of a range that does not wrap. -/
theorem toNat_add_ofNat (hEnd : offset.toNat + len ≤ 0x100000000) {i : Nat} (hi : i < len) :
    (offset + UInt32.ofNat i).toNat = offset.toNat + i := by
  rw [UInt32.toNat_add, UInt32.toNat_ofNat']
  omega

/-- **A range lies inside a segment exactly if each of its bytes does.** -/
theorem contains_iff_bytes (hLen : 0 < len) (hEnd : offset.toNat + len ≤ 0x100000000) :
    d.contains offset len = true ↔
      ∀ i < len, d.contains (offset + UInt32.ofNat i) 1 = true := by
  constructor
  · exact fun h i hi => contains_byte h hi (toNat_add_ofNat hEnd hi)
  · intro h
    -- the first byte decides about the lower end and the last one about the upper end
    have hFirst := h 0 hLen
    have hLast := h (len - 1) (Nat.sub_one_lt_of_lt hLen)
    have hFirstAt := toNat_add_ofNat hEnd hLen
    have hLastAt := toNat_add_ofNat hEnd (Nat.sub_one_lt_of_lt hLen)
    cases hDown : d.isExpandDown with
    | false =>
      rw [contains_iff_of_up hDown] at hLast ⊢
      omega
    | true =>
      rw [contains_iff_of_down hDown] at hFirst hLast ⊢
      omega

/-- **Decoding inverts the layout of an entry, and the range test of a descriptor agrees with the
test of each byte**, which compares the byte with the limit. -/
theorem entry_decodes :
    (∀ e : TableEntry,
      (ofBytes e.byte).base = e.base ∧ (ofBytes e.byte).access = e.access ∧
        (ofBytes e.byte).big = e.flags.testBit 2 ∧
        (ofBytes e.byte).limit.toNat =
          if e.flags.testBit 3 then e.limit * 4096 + 4095 else e.limit) ∧
    ∀ (d : Descriptor) (offset : UInt32) (len : Nat),
      0 < len → offset.toNat + len ≤ 0x100000000 →
        d.contains? offset len = some (d.contains offset len) ∧
        (d.contains offset len = true ↔
          ∀ i < len, d.contains (offset + UInt32.ofNat i) 1 = true) ∧
        (d.contains offset 1 = true ↔
          if d.isExpandDown then d.limit.toNat < offset.toNat ∧ offset.toNat ≤ d.topOffset
          else offset.toNat ≤ d.limit.toNat) := by
  refine ⟨TableEntry.ofBytes_byte, fun d offset len hLen hEnd => ⟨?_, ?_, ?_⟩⟩
  · rw [contains?, if_neg (by omega)]
  · exact d.contains_iff_bytes hLen hEnd
  · exact d.contains_one_iff offset

/-- A data segment of 64 KiB that grows down to a limit of 4 KiB. -/
def downEntry : TableEntry :=
  { base := 0, limit := 0x0FFF, access := 0x96, flags := 1
    limit_lt := by decide, flags_lt := by decide }

/-- The two bytes above the limit lie inside; of the last byte of 64 KiB and the next one, one does
not. -/
theorem entry_decodes_down :
    ((ofBytes downEntry.byte).contains 0x1000 2 = true ∧
      ∀ i < 2, (ofBytes downEntry.byte).contains (0x1000 + UInt32.ofNat i) 1 = true) ∧
    ((ofBytes downEntry.byte).contains 0xFFFF 2 = false ∧
      ¬ ∀ i < 2, (ofBytes downEntry.byte).contains (0xFFFF + UInt32.ofNat i) 1 = true) := by
  have hAbove := (entry_decodes.2 (ofBytes downEntry.byte) 0x1000 2 (by decide) (by decide)).2.1
  have hTop := (entry_decodes.2 (ofBytes downEntry.byte) 0xFFFF 2 (by decide) (by decide)).2.1
  have hInside : (ofBytes downEntry.byte).contains 0x1000 2 = true := by decide
  have hOutside : (ofBytes downEntry.byte).contains 0xFFFF 2 = false := by decide
  refine ⟨⟨hInside, hAbove.1 hInside⟩, hOutside, fun h => ?_⟩
  rw [hTop.2 h] at hOutside
  cases hOutside

end Descriptor

end X86
