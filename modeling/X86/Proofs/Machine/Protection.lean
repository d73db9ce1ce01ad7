import X86.Proofs.Exec.Primitive

/-!
# Memory protection

In protected mode the cached descriptor decides about an access as a whole: its kind, and the range
from the first byte to the last one. The range does not wrap, but the bytes do, so a byte can end up
outside a segment that the range lies in.

* `Location.Escapes`: the byte wraps into the offsets that an expand-down segment excludes.
* `Descriptor.contains_add_iff`: an accepted byte lies inside the segment unless it escapes.
* `memory_protected`: **an access goes through only if the descriptor grants it, and otherwise
  changes nothing.**
-/

namespace X86

/-- Byte `i` from a location on wraps into the offsets that a segment excludes. Its offset is
narrow, while the segment, which grows down, goes beyond 64 KiB. -/
def Location.Escapes (l : Location) (d : Descriptor) (i : Nat) : Prop :=
  l.wide = false ∧ d.isExpandDown = true ∧ d.big = true ∧ 0x10000 ≤ l.offset.toNat + i ∧
    l.offset.toNat + i - 0x10000 ≤ d.limit.toNat

instance (l : Location) (d : Descriptor) (i : Nat) : Decidable (l.Escapes d i) :=
  inferInstanceAs (Decidable (_ ∧ _))

namespace Descriptor

/-- The descriptor allows an access to `n` bytes from a location on: the kind of the access, and
each byte except those that escape. -/
structure Grants (d : Descriptor) (l : Location) (n : Nat) (kind : AccessKind) : Prop where
  present : d.isPresent = true
  segment : d.isSystem = false
  rights : (match kind with | .read => d.isReadable | .write => d.isWritable) = true
  inside : ∀ i < n, d.contains (l.add (UInt32.ofNat i)).offset 1 = true ↔ ¬ l.Escapes d i

variable {d : Descriptor} {l : Location}

/-! ### Single bytes -/

theorem contains_iff_of_down (h : d.isExpandDown = true) (offset : UInt32) (n : Nat) :
    d.contains offset n = true ↔
      d.limit.toNat < offset.toNat ∧ offset.toNat + n - 1 ≤ d.topOffset := by
  rw [contains, if_pos h, Bool.and_eq_true, decide_eq_true_iff, decide_eq_true_iff]

theorem contains_iff_of_up (h : d.isExpandDown = false) (offset : UInt32) (n : Nat) :
    d.contains offset n = true ↔ offset.toNat + n - 1 ≤ d.limit.toNat := by
  rw [contains, h, if_neg (by decide), decide_eq_true_iff]

theorem topOffset_lt (d : Descriptor) : d.topOffset < 0x100000000 := by
  rw [topOffset]
  split <;> decide

/-- The range of an access stays below 4 GiB. -/
theorem last_lt_of_contains {offset : UInt32} {n : Nat} (h : d.contains offset n = true) :
    offset.toNat + n - 1 < 0x100000000 := by
  cases hDown : d.isExpandDown with
  | false => exact Nat.lt_of_le_of_lt ((contains_iff_of_up hDown ..).1 h) d.limit.toNat_lt
  | true => exact Nat.lt_of_le_of_lt ((contains_iff_of_down hDown ..).1 h).2 d.topOffset_lt

/-- A byte that does not wrap lies inside the segment. -/
theorem contains_byte {offset offset' : UInt32} {n i : Nat} (h : d.contains offset n = true)
    (hi : i < n) (hOffset : offset'.toNat = offset.toNat + i) : d.contains offset' 1 = true := by
  cases hDown : d.isExpandDown with
  | false =>
    rw [contains_iff_of_up hDown] at h ⊢
    omega
  | true =>
    rw [contains_iff_of_down hDown] at h ⊢
    omega

/-- A byte that wraps lies inside the segment unless the segment grows down over it. -/
theorem contains_wrapped_iff {offset offset' : UInt32} {n i : Nat}
    (h : d.contains offset n = true) (hi : i < n)
    (hOffset : offset'.toNat + 0x10000 = offset.toNat + i) :
    d.contains offset' 1 = true ↔
      ¬ (d.isExpandDown = true ∧ d.big = true ∧ offset'.toNat ≤ d.limit.toNat) := by
  cases hDown : d.isExpandDown with
  | false =>
    rw [contains_iff_of_up hDown] at h ⊢
    simp only [Bool.false_eq_true, false_and, not_false_eq_true, iff_true]
    omega
  | true =>
    rw [contains_iff_of_down hDown] at h ⊢
    rw [topOffset] at h ⊢
    cases hBig : d.big with
    | false =>
      -- the range of a 16-bit segment that grows down ends at 64 KiB, so no byte of it wraps
      rw [hBig] at h
      exact absurd h.2 (by simp only [Bool.false_eq_true, if_false]; omega)
    | true =>
      have hTop := offset'.toNat_lt
      simp only [if_true, true_and]
      omega

/-- An accepted byte lies inside the segment unless it escapes. -/
theorem contains_add_iff {n : Nat} (h : d.contains l.offset n = true) (hn : n ≤ 0x10000) {i : Nat}
    (hi : i < n) :
    d.contains (l.add (UInt32.ofNat i)).offset 1 = true ↔ ¬ l.Escapes d i := by
  have hByte := l.toNat_offset_add i
  have hLast := last_lt_of_contains h
  rw [Location.Escapes]
  cases hWide : l.wide with
  | true =>
    rw [hWide, if_pos rfl, Width.values, Nat.mod_eq_of_lt (by omega)] at hByte
    simp only [Bool.true_eq_false, false_and, not_false_eq_true, iff_true]
    exact contains_byte h hi hByte
  | false =>
    have hNarrow : l.offset.toNat ≤ 0xFFFF := UInt32.le_iff_toNat_le.1 (l.offset_le hWide)
    rw [hWide, if_neg (by decide), Width.values] at hByte
    by_cases hWraps : 0x10000 ≤ l.offset.toNat + i
    · have hWrapped : (l.add (UInt32.ofNat i)).offset.toNat + 0x10000 = l.offset.toNat + i := by
        omega
      rw [contains_wrapped_iff h hi hWrapped]
      have hOffset : (l.add (UInt32.ofNat i)).offset.toNat = l.offset.toNat + i - 0x10000 := by
        omega
      rw [hOffset]
      simp only [hWraps, true_and]
    · have hSame : (l.add (UInt32.ofNat i)).offset.toNat = l.offset.toNat + i := by omega
      simp only [hWraps, false_and, and_false, not_false_eq_true, iff_true]
      exact contains_byte h hi hSame

end Descriptor

/-! ### Accesses -/

theorem Cpu.grants_of_mayAccess {c : Cpu} {l : Location} {n : Nat} {kind : AccessKind}
    (hp : c.protectedMode = true) (hn : n ≤ 0x10000) (h : c.mayAccess l n kind = true) :
    (c.caches.get l.seg).Grants l n kind := by
  rw [mayAccess, hp] at h
  simp only [Descriptor.allows, Bool.not_true, Bool.false_or, Bool.and_eq_true,
    Bool.not_eq_true'] at h
  obtain ⟨⟨⟨hPresent, hSegment⟩, hRights⟩, hContains⟩ := h
  exact ⟨hPresent, hSegment, hRights, fun i hi => Descriptor.contains_add_iff hContains hn hi⟩

namespace Exec

/-- **In protected mode an access goes through only if the descriptor grants it, and otherwise
changes nothing.** -/
theorem memory_protected {m : Machine} (hp : m.cpu.protectedMode = true) (l : Location) (w : Width)
    (v : UInt32) :
    (∀ a m', readMem l w m = .ok a m' → (m.cpu.caches.get l.seg).Grants l w.bytes .read ∧
        a = m.cpu.loadBytes m.bus l w ∧ m' = m) ∧
      (∀ m', writeMem l w v m = .ok () m' → (m.cpu.caches.get l.seg).Grants l w.bytes .write ∧
        m' = { m with bus := m.cpu.storeBytes m.bus l v w.bytes }) ∧
      (∀ s m', readMem l w m = .error s m' → s = .fault (Cpu.accessFault l.seg) ∧ m' = m) ∧
      ∀ s m', writeMem l w v m = .error s m' → s = .fault (Cpu.accessFault l.seg) ∧ m' = m := by
  have hBytes : w.bytes ≤ 0x10000 := Nat.le_trans w.bytes_le (by decide)
  rw [readMem_eq, writeMem_eq]
  refine ⟨?_, ?_, ?_, ?_⟩
  · intro a m' h
    split at h <;> cases h
    rename_i hMay
    exact ⟨Cpu.grants_of_mayAccess hp hBytes hMay, rfl, rfl⟩
  · intro m' h
    split at h <;> cases h
    rename_i hMay
    exact ⟨Cpu.grants_of_mayAccess hp hBytes hMay, rfl⟩
  · intro s m' h
    split at h <;> cases h
    exact ⟨rfl, rfl⟩
  · intro s m' h
    split at h <;> cases h
    exact ⟨rfl, rfl⟩

/-- A data segment that grows down from 4 GiB to a limit of 4 KiB. -/
def downSegment : Descriptor := { limit := 0xFFF, access := 0x97, big := true }

def downMachine : Machine :=
  { cpu :=
      { model := .i80386
        regs := ({} : Registers).writeControl .zero Cpu.protectionBit
        caches := (SegMap.replicate (Descriptor.realMode 0)).set .ds downSegment }
    bus := { ram := ⟨.empty⟩ } }

/-- The last bytes of a double word at the narrow offset FFFE are outside of it. -/
theorem memory_protected_wrapped :
    downMachine.cpu.protectedMode = true ∧
      readMem (.of .ds 0xFFFE false) .dword downMachine = .ok 0xFFFFFFFF downMachine ∧
      downSegment.contains ((Location.of .ds 0xFFFE false).add 2).offset 1 = false := by
  have hRead : readMem (.of .ds 0xFFFE false) .dword downMachine =
      .ok 0xFFFFFFFF downMachine := by rfl
  have hGrants := ((memory_protected (by decide) (.of .ds 0xFFFE false) .dword 0).1 _ _ hRead).1
  have hOutside : ¬ downSegment.contains ((Location.of .ds 0xFFFE false).add 2).offset 1 = true :=
    fun h => (hGrants.inside 2 (by decide)).1 h (by decide)
  exact ⟨by decide, hRead, by simpa using hOutside⟩

end Exec

end X86
