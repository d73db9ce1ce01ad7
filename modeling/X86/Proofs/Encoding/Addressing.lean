import Mathlib.Algebra.Group.Int.Defs
import X86.Cpu.Operand
import X86.Proofs.Alu.Arithmetic
import X86.Proofs.Encoding.Listing
import X86.Proofs.Encoding.Operands
import X86.Proofs.Encoding.Prefixes

/-!
# Addressing modes

The byte with register fields, and for some addresses of 32 bits the byte behind it, choose a row
of a table: up to two registers, a scale, and the size of a displacement that follows. The decoder
reads the displacement and names the registers; what they hold is added up when the operand is
resolved.

* `AddressRow.narrow`, `AddressRow.wide`: the tables for 16 and 32 bits.
* `AddressRow.sum`: what a row adds up.
* `Encoding.exists_memory`: a memory operand is read as its row says.
* `Code.FieldsAt`: where the byte with register fields stands.
* `decode_address`: **a memory operand resolves to the sum of its row, in the segment of its base or
  of the override, and no other byte is read for it.**
-/

namespace X86

/-! ### The tables -/

/-- A row of the tables: what is added up, and the bytes that follow the one with register
fields. -/
structure AddressRow where
  base : Option Gpr := none
  index : Option Gpr := none
  /-- What the index is multiplied by. -/
  scale : Nat := 1
  /-- The number of bytes that choose base and index. -/
  choice : Nat := 0
  /-- The number of bytes of the displacement. -/
  disp : Nat := 0
deriving DecidableEq

namespace AddressRow

/-- The size of a displacement by the mode; the large one has as many bytes as an address. -/
def dispOf (large mode : Nat) : Nat :=
  match mode with
  | 0 => 0
  | 1 => 1
  | _ => large

/-- The general register with a number. -/
def numbered (n : Nat) : Gpr := .ofCode (.ofNat n)

/-- The addresses of 16 bits, by the byte with register fields. -/
def narrow (b : UInt8) : AddressRow :=
  let mode := b.toNat / 64
  let disp := dispOf 2 mode
  match b.toNat % 8 with
  | 0 => { base := some .bx, index := some .si, disp }
  | 1 => { base := some .bx, index := some .di, disp }
  | 2 => { base := some .bp, index := some .si, disp }
  | 3 => { base := some .bp, index := some .di, disp }
  | 4 => { base := some .si, disp }
  | 5 => { base := some .di, disp }
  | 6 => if mode = 0 then { disp := 2 } else { base := some .bp, disp }
  | _ => { base := some .bx, disp }

/-- The general register with a number as the base of 32 bits; in mode 0 number 5 stands for a large
displacement instead. -/
def ofBase (mode n : Nat) : AddressRow :=
  if n = 5 ∧ mode = 0 then { disp := 4 }
  else { base := some (numbered n), disp := dispOf 4 mode }

/-- The addresses of 32 bits, by the byte with register fields and the byte `s` behind it. -/
def wide (b s : UInt8) : AddressRow :=
  if b.toNat % 8 = 4 then
    { ofBase (b.toNat / 64) (s.toNat % 8) with
      index := if s.toNat / 8 % 8 = 4 then none else some (numbered (s.toNat / 8 % 8))
      scale := 2 ^ (s.toNat / 64)
      choice := 1 }
  else ofBase (b.toNat / 64) (b.toNat % 8)

/-- The row for addresses of the given size. -/
def of (addr32 : Bool) (b s : UInt8) : AddressRow := if addr32 then wide b s else narrow b

/-- The segment without an override. -/
def segment (r : AddressRow) : SegReg :=
  if r.base = some .bp ∨ r.base = some .sp then .ss else .ds

/-- The value of a register that may be missing, as far as the address size shows it. -/
def value (regs : Registers) (addr32 : Bool) (r : Option Gpr) : Nat :=
  (r.map fun r => (regs.read (.ofGpr addr32 r)).toNat).getD 0

/-- Base, scaled index and displacement. -/
def sum (r : AddressRow) (regs : Registers) (addr32 : Bool) (disp : Int) : Int :=
  (value regs addr32 r.base + value regs addr32 r.index * r.scale : Nat) + disp

/-- The address computes the sum of the row, modulo the number of offsets. -/
def Gives (r : AddressRow) (addr32 : Bool) (disp : Int) (a : Address) : Prop :=
  ∀ c : Cpu, ((c.effectiveAddress a addr32).toNat : Int) =
    r.sum c.regs addr32 disp % (if addr32 then Width.dword else .word).values

end AddressRow

/-- The number in `n` bytes from position `k` on, the last of which has the sign. -/
def Code.signedAt (c : Code) (k n : Nat) : Int :=
  Int.bmod (joinLittle (fun i => c.byteAt (k + i)) n) (256 ^ n)

/-! ### Displacements -/

/-- A word is its signed value, modulo the number of words. -/
theorem toNat_eq_emod_toInt (v : UInt32) : (v.toNat : Int) = v.toInt32.toInt % 2 ^ 32 := by
  have hBits : v.toInt32.toInt = Int.bmod v.toNat (2 ^ 32) := BitVec.toInt_eq_toNat_bmod v.toBitVec
  have hv := v.toNat_lt
  rw [hBits, Int.bmod]
  omega

namespace Fetch

theorem exists_sized (w : Width) (c : Code) (d : Decoder) :
    ∃ v, sized w c d = .ok v (d.advance c w.bytes) ∧
      v.toNat = joinLittle (fun i => c.byteAt (d.length + i)) w.bytes := by
  cases w with
  | byte =>
    refine ⟨_, rfl, ?_⟩
    simp [joinLittle, Width.bytes]
  | word =>
    refine ⟨_, rfl, ?_⟩
    simp [joinLittle, Width.bytes, toNat_word16]
  | dword =>
    refine ⟨_, rfl, ?_⟩
    simp [joinLittle, Width.bytes, toNat_word16, toNat_word32, Nat.add_assoc]
    omega

theorem exists_signed (w : Width) (c : Code) (d : Decoder) :
    ∃ v, signed w c d = .ok v (d.advance c w.bytes) ∧
      v.toInt32.toInt = c.signedAt d.length w.bytes := by
  obtain ⟨v, hRun, hNat⟩ := exists_sized w c d
  refine ⟨w.signExtend v, bind_of_ok hRun, ?_⟩
  rw [Code.signedAt, ← hNat, ← Width.toInt, Width.toInt_eq, Width.toNat_truncate]
  cases w <;> simp only [Width.bytes, Width.values, Width.half, Int.bmod] <;> omega

end Fetch

/-! ### Fields -/

namespace ModRM

variable (b : UInt8)

theorem toNat_mode : (ofByte b).mode.toNat = b.toNat / 64 := by
  revert b
  exact of_bytes (by decide +kernel)

theorem toNat_rm : (ofByte b).rm.toNat = b.toNat % 8 := by
  revert b
  exact of_bytes (by decide +kernel)

theorem mode_eq_iff (n : UInt8) : (ofByte b).mode = n ↔ b.toNat / 64 = n.toNat := by
  rw [← UInt8.toNat_inj, toNat_mode]

theorem rm_eq_iff (n : UInt8) : (ofByte b).rm = n ↔ b.toNat % 8 = n.toNat := by
  rw [← UInt8.toNat_inj, toNat_rm]

theorem ofCode_rm : Gpr.ofCode (ofByte b).rm = AddressRow.numbered (b.toNat % 8) := by
  rw [AddressRow.numbered, ← toNat_rm, UInt8.ofNat_toNat]

end ModRM

namespace ScaledIndex

variable (s : UInt8)

theorem toNat_index : (ofByte s).index.toNat = s.toNat / 8 % 8 := by
  revert s
  exact of_bytes (by decide +kernel)

theorem toNat_base : (ofByte s).base.toNat = s.toNat % 8 := by
  revert s
  exact of_bytes (by decide +kernel)

theorem index_eq_iff (n : UInt8) : (ofByte s).index = n ↔ s.toNat / 8 % 8 = n.toNat := by
  rw [← UInt8.toNat_inj, toNat_index]

theorem base_eq_iff (n : UInt8) : (ofByte s).base = n ↔ s.toNat % 8 = n.toNat := by
  rw [← UInt8.toNat_inj, toNat_base]

theorem ofCode_index : Gpr.ofCode (ofByte s).index = AddressRow.numbered (s.toNat / 8 % 8) := by
  rw [AddressRow.numbered, ← toNat_index, UInt8.ofNat_toNat]

theorem ofCode_base : Gpr.ofCode (ofByte s).base = AddressRow.numbered (s.toNat % 8) := by
  rw [AddressRow.numbered, ← toNat_base, UInt8.ofNat_toNat]

theorem toNat_scale : ((1 : UInt8) <<< (ofByte s).scale).toNat = 2 ^ (s.toNat / 64) := by
  revert s
  exact of_bytes (by decide +kernel)

end ScaledIndex

/-! ### Sums -/

namespace AddressRow

variable {r : AddressRow} {disp : Int}

theorem gives_direct {addr32 : Bool} {v : UInt32} (hBase : r.base = none)
    (hIndex : r.index = none)
    (hv : (v.toNat : Int) % (if addr32 then Width.dword else .word).values =
      disp % (if addr32 then Width.dword else .word).values) :
    r.Gives addr32 disp (.direct v) := by
  intro c
  have hNone : value c.regs addr32 none = 0 := rfl
  have hSum : r.sum c.regs addr32 disp = disp := by
    rw [sum, hBase, hIndex, hNone, Nat.zero_mul]
    exact Int.zero_add disp
  rw [Cpu.effectiveAddress, toNat_wrapOffset, Int.natCast_emod, hv, hSum]

/-- What a narrow address keeps of a displacement. -/
theorem toNat_signExtend_word (v : UInt32) :
    ((Width.word.signExtend v).toNat : Int) % 65536 = v.toInt32.toInt % 65536 := by
  have hv := toNat_eq_emod_toInt v
  have hExtended := toNat_eq_emod_toInt (Width.word.signExtend v)
  rw [← Width.toInt, Width.toInt_eq, Width.toNat_truncate] at hExtended
  simp only [Width.values, Width.half] at hExtended
  omega

theorem gives_based {form : AddressForm} {v : UInt32} (hBase : r.base = some form.base)
    (hIndex : r.index = form.index) (hScale : r.scale = 1) :
    r.Gives false v.toInt32.toInt (.based form v.toUInt16.toInt16) := by
  intro c
  have hDisp : ((v.toUInt16.toInt16.toInt32.toUInt32).toNat : Int) % 65536 =
    v.toInt32.toInt % 65536 := toNat_signExtend_word v
  have hBaseValue : value c.regs false r.base = (c.regs.word form.base).toUInt32.toNat := by
    rw [hBase]
    rfl
  rw [Cpu.effectiveAddress, toNat_wrapOffset, sum, hBaseValue, hIndex, hScale]
  cases form.index with
  | none =>
    have hIndexValue : value c.regs false none = (0 : UInt32).toNat := rfl
    rw [hIndexValue, UInt32.toNat_add, UInt32.toNat_add]
    simp only [Bool.false_eq_true, if_false, Width.values]
    omega
  | some i =>
    have hIndexValue : value c.regs false (some i) = (c.regs.word i).toUInt32.toNat := rfl
    rw [hIndexValue, UInt32.toNat_add, UInt32.toNat_add]
    simp only [Bool.false_eq_true, if_false, Width.values]
    omega

theorem gives_indexed {scale : UInt8} {v : UInt32} (hScale : scale.toNat = r.scale) :
    r.Gives true v.toInt32.toInt (.indexed r.base r.index scale v.toInt32) := by
  intro c
  have hDisp := toNat_eq_emod_toInt v
  have hBase : value c.regs true r.base =
      (r.base.elim 0 fun b => c.regs.dword b).toNat := by
    cases r.base <;> rfl
  have hIndex : value c.regs true r.index * r.scale % 2 ^ 32 =
      (r.index.elim 0 fun i => c.regs.dword i * scale.toUInt32).toNat := by
    rw [← hScale]
    cases r.index with
    | none => rw [value, Option.map_none, Option.getD_none, Nat.zero_mul]; rfl
    | some i =>
      rw [Option.elim_some, UInt32.toNat_mul, UInt8.toNat_toUInt32]
      rfl
  have hAddress : c.effectiveAddress (.indexed r.base r.index scale v.toInt32) true =
      wrapOffset true (v + (r.base.elim 0 fun b => c.regs.dword b) +
        (r.index.elim 0 fun i => c.regs.dword i * scale.toUInt32)) := by
    rw [Cpu.effectiveAddress.eq_def]
    cases r.base <;> cases r.index <;> rfl
  rw [hAddress, toNat_wrapOffset, sum, hBase, UInt32.toNat_add, UInt32.toNat_add, ← hIndex]
  simp only [if_true, Width.values]
  generalize value c.regs true r.index * r.scale = scaled
  omega

end AddressRow

/-! ### Reading an address -/

namespace Encoding

open AddressRow (dispOf narrow wide ofBase)

variable {b : UInt8}

/-- Reading goes on behind a displacement, which has one byte in mode 1 and otherwise none or the
bytes of width `w`. -/
theorem exists_disp {α : Type} {mode : UInt8} {large : Prop} [Decidable large] {x : Fetch UInt32}
    {w : Width} {n : Nat} (hx : x = Fetch.signed w)
    (hn : n = if mode = 1 then 1 else if large then w.bytes else 0) (f : UInt32 → Fetch α)
    (c : Code) (d : Decoder) :
    ∃ v : UInt32, (if mode = 1 then shortDisplacement >>= f else if large then x >>= f
          else pure 0 >>= f) c d = f v c (d.advance c n) ∧
      v.toInt32.toInt = c.signedAt d.length n := by
  rw [hx, hn]
  split
  · obtain ⟨v, hRun, hDisp⟩ := Fetch.exists_signed .byte c d
    exact ⟨v, Fetch.bind_of_ok hRun, hDisp⟩
  · split
    · obtain ⟨v, hRun, hDisp⟩ := Fetch.exists_signed w c d
      exact ⟨v, Fetch.bind_of_ok hRun, hDisp⟩
    · exact ⟨0, rfl, (Int.bmod_one _).symm⟩

/-- The rows of 16 bits with registers are those that the decoder goes by. -/
theorem narrow_of_ne : ∀ b : UInt8, b.toNat / 64 ≠ 3 →
    ¬((ModRM.ofByte b).mode = 0 ∧ (ModRM.ofByte b).rm = 6) →
    let x := ModRM.ofByte b
    let form := AddressForm.ofCode x.rm
    narrow b =
        { base := some form.base
          index := form.index
          disp := if x.mode = 1 then 1 else if x.mode = 2 then 2 else 0 } ∧
      (narrow b).segment = if form.usesBp then .ss else .ds :=
  of_bytes (by decide +kernel)

theorem exists_address16 (hMode : b.toNat / 64 ≠ 3) (c : Code) (d : Decoder) :
    ∃ a, address16 (ModRM.ofByte b) c d =
        .ok ((narrow b).segment, a) (d.advance c (narrow b).disp) ∧
      (narrow b).Gives false (c.signedAt d.length (narrow b).disp) a := by
  rw [address16]
  by_cases hDirect : (ModRM.ofByte b).mode = 0 ∧ (ModRM.ofByte b).rm = 6
  · have hRow : narrow b = { disp := 2 } := by
      rw [ModRM.mode_eq_iff, ModRM.rm_eq_iff] at hDirect
      rw [narrow, hDirect.2, hDirect.1]
      rfl
    obtain ⟨v, hRun, hNat⟩ := Fetch.exists_sized .word c d
    cases hRun
    rw [if_pos hDirect, hRow]
    refine ⟨_, rfl, AddressRow.gives_direct rfl rfl ?_⟩
    rw [hNat]
    exact (Int.bmod_emod ..).symm
  · obtain ⟨hRow, hSegment⟩ := narrow_of_ne b hMode hDirect
    obtain ⟨v, hRun, hDisp⟩ := exists_disp (w := .word) rfl (congrArg AddressRow.disp hRow)
      (fun disp : UInt32 => pure (if (AddressForm.ofCode (ModRM.ofByte b).rm).usesBp = true then
        SegReg.ss else .ds, Address.based (AddressForm.ofCode (ModRM.ofByte b).rm)
          disp.toUInt16.toInt16)) c d
    rw [if_neg hDirect, hSegment]
    refine ⟨_, hRun, ?_⟩
    rw [← hDisp, hRow]
    exact AddressRow.gives_based rfl rfl rfl

theorem base_ofBase (mode n : Nat) :
    (ofBase mode n).base = if n = 5 ∧ mode = 0 then none else some (AddressRow.numbered n) := by
  rw [ofBase]
  split <;> rfl

theorem exists_baseAndIndex (b : UInt8) (c : Code) (d : Decoder) :
    let row := wide b (c.byteAt d.length)
    ∃ scale : UInt8, baseAndIndex (ModRM.ofByte b) c d =
        .ok (row.base, row.index, scale) (d.advance c row.choice) ∧
      scale.toNat = row.scale := by
  intro row
  by_cases hRm : (ModRM.ofByte b).rm = 4
  · have hRow : row = _ := if_pos ((ModRM.rm_eq_iff b 4).1 hRm)
    rw [hRow, baseAndIndex, if_pos hRm, base_ofBase]
    refine ⟨_, ?_, ScaledIndex.toNat_scale _⟩
    rw [Fetch.bind_of_ok (x := Fetch.byte) rfl]
    simp only [ScaledIndex.base_eq_iff, ScaledIndex.index_eq_iff, ModRM.mode_eq_iff,
      ScaledIndex.ofCode_base, ScaledIndex.ofCode_index]
    rfl
  · have hRow : row = ofBase _ _ := if_neg fun h => hRm ((ModRM.rm_eq_iff b 4).2 h)
    rw [baseAndIndex, if_neg hRm]
    by_cases hDirect : (ModRM.ofByte b).rm = 5 ∧ (ModRM.ofByte b).mode = 0
    · have hDisp : row = { disp := 4 } := hRow.trans
        (if_pos ⟨(ModRM.rm_eq_iff b 5).1 hDirect.1, (ModRM.mode_eq_iff b 0).1 hDirect.2⟩)
      rw [if_pos hDirect, hDisp]
      exact ⟨1, rfl, rfl⟩
    · have hBase : row = { base := some _, disp := _ } := hRow.trans (if_neg fun h =>
        hDirect ⟨(ModRM.rm_eq_iff b 5).2 h.1, (ModRM.mode_eq_iff b 0).2 h.2⟩)
      rw [if_neg hDirect, hBase, ModRM.ofCode_rm]
      exact ⟨1, rfl, rfl⟩

theorem disp_wide (hMode : b.toNat / 64 ≠ 3) (s : UInt8) :
    (wide b s).disp =
      if (ModRM.ofByte b).mode = 1 then 1
      else if (ModRM.ofByte b).mode = 2 ∨ (wide b s).base.isNone then 4 else 0 := by
  have hBase (n : Nat) : (ofBase (b.toNat / 64) n).disp =
      if (ModRM.ofByte b).mode = 1 then 1
      else if (ModRM.ofByte b).mode = 2 ∨ (ofBase (b.toNat / 64) n).base.isNone then 4 else 0 := by
    have hb := b.toNat_lt
    simp only [ModRM.mode_eq_iff, base_ofBase]
    rw [ofBase]
    by_cases hDirect : n = 5 ∧ b.toNat / 64 = 0
    · simp [hDirect]
    · obtain h | h | h : b.toNat / 64 = 0 ∨ b.toNat / 64 = 1 ∨ b.toNat / 64 = 2 := by omega
      all_goals
        rw [if_neg hDirect, if_neg hDirect, h]
        rfl
  rw [wide]
  split
  · exact hBase _
  · exact hBase _

theorem exists_address32 (hMode : b.toNat / 64 ≠ 3) (c : Code) (d : Decoder) :
    let row := wide b (c.byteAt d.length)
    ∃ a, address32 (ModRM.ofByte b) c d =
        .ok (row.segment, a) (d.advance c (row.choice + row.disp)) ∧
      row.Gives true (c.signedAt (d.length + row.choice) row.disp) a := by
  intro row
  obtain ⟨scale, hChoice, hScale⟩ := exists_baseAndIndex b c d
  obtain ⟨v, hRun, hDisp⟩ := exists_disp (w := .dword) (x := Fetch.dword) rfl
    (disp_wide hMode (c.byteAt d.length))
    (fun disp : UInt32 =>
      if row.base.isNone ∧ row.index.isNone then pure (SegReg.ds, Address.direct disp)
      else pure (if row.base = some .sp ∨ row.base = some .bp then .ss else .ds,
        Address.indexed row.base row.index scale disp.toInt32)) c (d.advance c row.choice)
  rw [Decoder.length_advance] at hDisp
  rw [← Decoder.advance_add] at hRun
  have hAddress : address32 (ModRM.ofByte b) c d = _ := (Fetch.bind_of_ok hChoice).trans hRun
  rw [hAddress, ← hDisp]
  by_cases hDirect : row.base.isNone ∧ row.index.isNone
  · have hBase : row.base = none := Option.isNone_iff_eq_none.1 hDirect.1
    have hSegment : row.segment = .ds := by
      rw [AddressRow.segment, hBase]
      rfl
    rw [if_pos hDirect, hSegment]
    refine ⟨_, rfl, AddressRow.gives_direct hBase (Option.isNone_iff_eq_none.1 hDirect.2) ?_⟩
    rw [toNat_eq_emod_toInt]
    exact Int.emod_emod_of_dvd _ (Int.dvd_refl _)
  · rw [if_neg hDirect]
    have hSegment : row.segment =
        if row.base = some .sp ∨ row.base = some .bp then .ss else .ds := by
      rw [AddressRow.segment]
      simp only [or_comm]
    rw [hSegment]
    exact ⟨_, rfl, AddressRow.gives_indexed hScale⟩

theorem choice_narrow : ∀ b : UInt8, (narrow b).choice = 0 := of_bytes (by decide +kernel)

/-- **A memory operand is read as its row says.** -/
theorem exists_memory (hMode : b.toNat / 64 ≠ 3) (p : Prefixes) (w : Width) (c : Code)
    (d : Decoder) :
    let row := AddressRow.of p.addr32 b (c.byteAt d.length)
    ∃ a, memory p (ModRM.ofByte b) w c d =
        .ok (.mem w (some (p.segment.getD row.segment)) a)
          (d.advance c (row.choice + row.disp)) ∧
      row.Gives p.addr32 (c.signedAt (d.length + row.choice) row.disp) a := by
  intro row
  rw [memory]
  cases hSize : p.addr32 with
  | true =>
    have hRow : row = wide b (c.byteAt d.length) := if_pos hSize
    obtain ⟨a, hRun, hGives⟩ := exists_address32 hMode c d
    rw [hRow]
    exact ⟨a, Fetch.bind_of_ok hRun, hGives⟩
  | false =>
    have hRow : row = narrow b := if_neg (by rw [hSize]; exact Bool.false_ne_true)
    obtain ⟨a, hRun, hGives⟩ := exists_address16 hMode c d
    rw [hRow, choice_narrow, Nat.zero_add, Nat.add_zero]
    exact ⟨a, Fetch.bind_of_ok hRun, hGives⟩

end Encoding

/-! ### Reading the operands of a layout -/

/-- Every operand in this place resolves to memory in the segment of the override, or else of the
row, at the sum of the row. -/
def AddressRow.Resolves (r : AddressRow) (override : Override) (addr32 : Bool) (disp : Int)
    (o : Operand) : Prop :=
  ∀ c : Cpu, ∃ l, c.resolve o addr32 = .mem l ∧ l.seg = override.getD r.segment ∧
    l.wide = addr32 ∧
    (l.offset.toNat : Int) =
      r.sum c.regs addr32 disp % (if addr32 then Width.dword else .word).values

theorem AddressRow.Gives.resolves {r : AddressRow} {addr32 : Bool} {disp : Int} {a : Address}
    (h : r.Gives addr32 disp a) (override : Override) (w : Width) :
    r.Resolves override addr32 disp (.mem w (some (override.getD r.segment)) a) := by
  intro c
  refine ⟨_, rfl, rfl, rfl, ?_⟩
  rw [Location.of, toNat_wrapOffset, Int.natCast_emod, h c]
  exact Int.emod_emod_of_dvd _ (Int.dvd_refl _)

namespace OperandForm

/-- The form can name memory by a mode. -/
def isMemory : OperandForm → Bool
  | .rm _ | .mem _ => true
  | _ => false

/-- No bytes are read for the form. -/
def isSilent : OperandForm → Bool
  | .absent | .fixed _ | .gpr .. | .reg _ | .rmReg _ => true
  | _ => false

/-- The number of bytes of the constants in the form. -/
def constantBytes (p : Prefixes) : OperandForm → Nat
  | .imm s | .relative s => (s.width p.op32).bytes
  | .signed8 => 1
  | .far => (Size.full.width p.op32).bytes + 2
  | .offset _ => (if p.addr32 then Width.dword else .word).bytes
  | _ => 0

end OperandForm

/-- The number of bytes of the constants in a layout. -/
def Layout.constantBytes (p : Prefixes) (l : Layout) : Nat :=
  l.dst.constantBytes p + l.src.constantBytes p + l.src2.constantBytes p

namespace Encoding

variable {b : UInt8} {p : Prefixes} {form : OperandForm}

theorem exists_constant (hForm : form.isMemory = false) (x : ModRM) (c : Code) (d : Decoder) :
    ∃ o, operand p x form c d = .ok o (d.advance c (form.constantBytes p)) := by
  cases form with
  | absent | fixed _ | gpr _ _ | reg _ | rmReg _ => exact ⟨_, rfl⟩
  | rm _ | mem _ => cases hForm
  | imm s =>
    obtain ⟨v, hRun, -⟩ := Fetch.exists_sized (s.width p.op32) c d
    exact ⟨_, Fetch.bind_of_ok hRun⟩
  | signed8 => exact ⟨_, rfl⟩
  | relative s =>
    obtain ⟨v, hRun, -⟩ := Fetch.exists_signed (s.width p.op32) c d
    exact ⟨_, Fetch.bind_of_ok hRun⟩
  | far =>
    obtain ⟨v, hRun, -⟩ := Fetch.exists_sized (Size.full.width p.op32) c d
    rw [operand, Fetch.bind_of_ok hRun, OperandForm.constantBytes, Decoder.advance_add]
    exact ⟨_, rfl⟩
  | offset s =>
    obtain ⟨v, hRun, -⟩ := Fetch.exists_sized (if p.addr32 then .dword else .word) c d
    exact ⟨_, Fetch.bind_of_ok hRun⟩

theorem exists_addressed (hForm : form.isMemory = true) (hMode : b.toNat / 64 ≠ 3) (c : Code)
    (d : Decoder) :
    let row := AddressRow.of p.addr32 b (c.byteAt d.length)
    ∃ o, operand p (ModRM.ofByte b) form c d = .ok o (d.advance c (row.choice + row.disp)) ∧
      row.Resolves p.segment p.addr32 (c.signedAt (d.length + row.choice) row.disp) o := by
  intro row
  have hMemory : (ModRM.ofByte b).isRegister = false :=
    beq_false_of_ne fun h => hMode ((ModRM.mode_eq_iff b 3).1 h)
  cases form with
  | rm s =>
    obtain ⟨a, hRun, hGives⟩ := exists_memory hMode p (s.width p.op32) c d
    refine ⟨_, ?_, hGives.resolves p.segment (s.width p.op32)⟩
    rw [operand, registerOrMemory, hMemory]
    exact hRun
  | mem s =>
    obtain ⟨a, hRun, hGives⟩ := exists_memory hMode p (s.width p.op32) c d
    refine ⟨_, ?_, hGives.resolves p.segment (s.width p.op32)⟩
    rw [operand, hMemory]
    exact hRun
  | absent | fixed _ | gpr _ _ | reg _ | rmReg _ | imm _ | signed8 | relative _ | far | offset _ =>
    cases hForm

end Encoding

/-! ### Layouts -/

/-- The operand in memory comes before the constants, and there is no second one. -/
def Layout.memoryFirst (l : Layout) : Bool :=
  !l.src2.isMemory && (!l.src.isMemory || l.dst.isSilent)

/-- An operand of the layout can be in memory. -/
def Layout.hasMemory (l : Layout) : Bool := l.dst.isMemory || l.src.isMemory

namespace Encoding

variable {b : UInt8} {p : Prefixes} {l : Layout}

theorem constantBytes_of_isSilent {form : OperandForm} (h : form.isSilent = true) (p : Prefixes) :
    form.isMemory = false ∧ form.constantBytes p = 0 := by
  cases form with
  | absent | fixed _ | gpr _ _ | reg _ | rmReg _ => exact ⟨rfl, rfl⟩
  | rm _ | mem _ | imm _ | signed8 | relative _ | far | offset _ => cases h

theorem constantBytes_of_isMemory {form : OperandForm} (h : form.isMemory = true) (p : Prefixes) :
    form.isSilent = false ∧ form.constantBytes p = 0 := by
  cases form with
  | rm _ | mem _ => exact ⟨rfl, rfl⟩
  | absent | fixed _ | gpr _ _ | reg _ | rmReg _ | imm _ | signed8 | relative _ | far | offset _ =>
    cases h

/-- The bytes of an instruction behind its fields are those of its operands, one after the other. -/
theorem instruction_eq_ok {x : ModRM} {c : Code} {d : Decoder} {k n j : Nat}
    {dst src src2 : Operand} (hDst : operand p x l.dst c d = .ok dst (d.advance c k))
    (hSrc : operand p x l.src c (d.advance c k) = .ok src ((d.advance c k).advance c n))
    (hSrc2 : operand p x l.src2 c ((d.advance c k).advance c n) =
      .ok src2 (((d.advance c k).advance c n).advance c j)) :
    instruction p x l c d =
      .ok { operation := l.operation, size := l.size.width p.op32, dst, src, src2 }
        (d.advance c (k + n + j)) := by
  rw [instruction, Fetch.bind_of_ok hDst, Fetch.bind_of_ok hSrc, Fetch.bind_of_ok hSrc2,
    Decoder.advance_add c (k + n), Decoder.advance_add c k]
  rfl

/-- **The operands of a layout are read in one go**: first the operand in memory, then the
constants. -/
theorem exists_instruction (hFirst : l.memoryFirst = true) (hMemory : l.hasMemory = true)
    (hMode : b.toNat / 64 ≠ 3) (c : Code) (d : Decoder) :
    let row := AddressRow.of p.addr32 b (c.byteAt d.length)
    let disp := c.signedAt (d.length + row.choice) row.disp
    ∃ i, instruction p (ModRM.ofByte b) l c d =
        .ok i (d.advance c (row.choice + row.disp + l.constantBytes p)) ∧
      (l.dst.isMemory = true → row.Resolves p.segment p.addr32 disp i.dst) ∧
      (l.src.isMemory = true → row.Resolves p.segment p.addr32 disp i.src) := by
  intro row disp
  simp only [Layout.memoryFirst, Bool.and_eq_true, Bool.not_eq_true', Bool.or_eq_true] at hFirst
  obtain ⟨hSrc2, hOrder⟩ := hFirst
  cases hDst : l.dst.isMemory with
  | true =>
    obtain ⟨hNotSilent, hNone⟩ := constantBytes_of_isMemory hDst p
    rw [hNotSilent, Bool.false_eq_true, or_false] at hOrder
    obtain ⟨dst, hRunDst, hResolves⟩ := exists_addressed (p := p) hDst hMode c d
    obtain ⟨src, hRunSrc⟩ := exists_constant (p := p) hOrder (ModRM.ofByte b) c
      (d.advance c (row.choice + row.disp))
    obtain ⟨src2, hRunSrc2⟩ := exists_constant (p := p) hSrc2 (ModRM.ofByte b) c
      ((d.advance c (row.choice + row.disp)).advance c (l.src.constantBytes p))
    rw [Layout.constantBytes, hNone, Nat.zero_add, ← Nat.add_assoc]
    refine ⟨_, instruction_eq_ok hRunDst hRunSrc hRunSrc2, fun _ => hResolves, fun h => ?_⟩
    rw [hOrder] at h
    cases h
  | false =>
    have hSrc : l.src.isMemory = true := by rwa [Layout.hasMemory, hDst, Bool.false_or] at hMemory
    rw [hSrc] at hOrder
    obtain ⟨-, hNone⟩ := constantBytes_of_isSilent (hOrder.resolve_left Bool.noConfusion) p
    obtain ⟨dst, hRunDst⟩ := exists_constant (p := p) hDst (ModRM.ofByte b) c d
    obtain ⟨src, hRunSrc, hResolves⟩ := exists_addressed (p := p) hSrc hMode c d
    obtain ⟨src2, hRunSrc2⟩ := exists_constant (p := p) hSrc2 (ModRM.ofByte b) c
      (d.advance c (row.choice + row.disp))
    rw [hNone] at hRunDst
    have hRun := instruction_eq_ok hRunDst hRunSrc hRunSrc2
    rw [Nat.zero_add] at hRun
    rw [Layout.constantBytes, hNone, (constantBytes_of_isMemory hSrc p).2, Nat.zero_add]
    exact ⟨_, hRun, fun h => Bool.noConfusion h, fun _ => hResolves⟩

end Encoding

/-! ### The opcode tables -/

/-- The selected layout, if there is one, has its memory first. -/
def Selection.memoryFirst : Selection → Bool
  | .layout l => l.memoryFirst
  | .undefined | .undefinedAfter _ => true

/-- All layouts of an entry have their memory first. -/
def Entry.MemoryFirst (e : Entry) : Prop := ∀ reg, (e.selection reg).memoryFirst = true

namespace FirstPage

theorem memoryFirst_unaryGroup (s : Size) : (Entry.fields (unaryGroup s)).MemoryFirst := by
  intro reg
  simp only [Entry.selection, unaryGroup]
  split <;> rfl

theorem memoryFirst_byteGroup : (Entry.fields byteGroup).MemoryFirst := by
  intro reg
  simp only [Entry.selection, byteGroup]
  split <;> rfl

theorem memoryFirst_fullGroup : (Entry.fields fullGroup).MemoryFirst := by
  intro reg
  simp only [Entry.selection, fullGroup]
  split <;> rfl

theorem memoryFirst_row (m : Features) (b : UInt8) : (row m b).MemoryFirst := by
  unfold row arithmetic register row60 row68 shortJump row80 row88 row90 row98 rowA0 rowA8
    loadConstant rowC0 rowC8 rowD0 coprocessor rowE0 rowE8 rowF0 rowF8 shiftGroup
  repeat' split
  all_goals
    first
    | exact fun _ => rfl
    | exact memoryFirst_unaryGroup _
    | exact memoryFirst_byteGroup
    | exact memoryFirst_fullGroup
    | skip
  -- What is left are the rows whose register field selects.
  all_goals
    intro reg
    simp only [Entry.selection]
    repeat' split
    all_goals rfl

end FirstPage

theorem SecondPage.memoryFirst_entry (b : UInt8) : (entry b).MemoryFirst := by
  unfold entry rowsA0 nearJump setByte
  repeat' split
  all_goals
    first
    | exact fun _ => rfl
    | skip
  all_goals
    intro reg
    simp only [Entry.selection, selectorGroup, tableGroup, moveSpecial, bitGroup]
    repeat' split
    all_goals rfl

/-- The opcode at `k` is followed, at `j`, by a byte with register fields, and both together select
a layout. -/
inductive Code.FieldsAt (c : Code) (m : Features) (k : Nat) : Nat → Layout → Prop
  | first {select : UInt8 → Selection} {l : Layout} (hk : c.OpcodeAt m k)
      (hEntry : FirstPage.entry m (c.byteAt k) = .fields select)
      (hLayout : select (ModRM.ofByte (c.byteAt (k + 1))).reg = .layout l) :
      FieldsAt c m k (k + 1) l
  | second {select : UInt8 → Selection} {l : Layout} (hk : c.OpcodeAt m k)
      (hPage : FirstPage.entry m (c.byteAt k) = .secondPage)
      (hEntry : SecondPage.entry (c.byteAt (k + 1)) = .fields select)
      (hLayout : select (ModRM.ofByte (c.byteAt (k + 2))).reg = .layout l) :
      FieldsAt c m k (k + 2) l

namespace Code.FieldsAt

variable {c : Code} {m : Features} {k j : Nat} {l : Layout}

theorem opcodeAt (h : c.FieldsAt m k j l) : c.OpcodeAt m k := by
  cases h with
  | first hk _ _ => exact hk
  | second hk _ _ _ => exact hk

theorem offered (h : c.FieldsAt m k j l) : Offered m l := by
  cases h with
  | first _ hEntry hLayout => exact .first _ (by rw [hEntry]; exact ⟨_, hLayout⟩)
  | second _ hPage hEntry hLayout =>
    exact .second _ _ hPage (by rw [hEntry]; exact ⟨_, hLayout⟩)

theorem memoryFirst (h : c.FieldsAt m k j l) : l.memoryFirst = true := by
  cases h with
  | first _ hEntry hLayout =>
    have hFirst := FirstPage.memoryFirst_row m (if m.extendedOpcodes then c.byteAt k
      else FirstPage.alias8086 (c.byteAt k)) (ModRM.ofByte (c.byteAt (k + 1))).reg
    rw [← FirstPage.entry, hEntry, Entry.selection, hLayout] at hFirst
    exact hFirst
  | second _ hPage hEntry hLayout =>
    have hFirst := SecondPage.memoryFirst_entry (c.byteAt (k + 1))
      (ModRM.ofByte (c.byteAt (k + 2))).reg
    rw [hEntry, Entry.selection, hLayout] at hFirst
    exact hFirst

theorem entry_eq {select : UInt8 → Selection} {d : Decoder}
    (hLayout : select (ModRM.ofByte (c.byteAt d.length)).reg = .layout l) (p : Prefixes) :
    Encoding.entry p (.fields select) c d =
      Encoding.instruction p (ModRM.ofByte (c.byteAt d.length)) l c (d.advance c 1) := by
  rw [Encoding.entry, Fetch.bind_of_ok (x := Fetch.byte) rfl, hLayout]
  rfl

/-- The operands are read behind the byte with register fields. -/
theorem body_eq (h : c.FieldsAt m k j l) {d : Decoder} (hd : d.length = k + 1) (p : Prefixes) :
    ∃ d' : Decoder, d'.length = j + 1 ∧ Encoding.body m p (c.byteAt k) c d =
      Encoding.instruction p (ModRM.ofByte (c.byteAt j)) l c d' := by
  cases h with
  | first _ hEntry hLayout =>
    rw [← hd] at hLayout ⊢
    exact ⟨_, Decoder.length_advance c 1 d,
      (congrFun (congrFun (Encoding.body_of_fields hEntry) c) d).trans (entry_eq hLayout p)⟩
  | second _ hPage hEntry hLayout =>
    have hNext : (d.advance c 1).length = k + 2 := by rw [Decoder.length_advance, hd]
    rw [← hNext] at hLayout ⊢
    refine ⟨_, Decoder.length_advance c 1 _, Eq.trans ?_ (entry_eq hLayout p)⟩
    rw [Encoding.body, hPage, ← hEntry, ← hd]
    rfl

end Code.FieldsAt

/-- A handler that accepts the operands has an operation to handle. -/
theorem Instruction.Accepted.isValid {i : Instruction} (h : i.Accepted) : i.isValid = true := by
  cases hOp : i.operation with
  | invalid bytes reason =>
    rw [Accepted, hOp] at h
    cases h
  | _ => exact congrArg Operation.isValid hOp

section Decode

variable {m : Features} {c : Code} {k j : Nat} {l : Layout}

/-- **A memory operand resolves to the sum of its row.** Take any code in which the byte at `j`,
with the opcode before it, selects a layout with an operand in memory, and is not in the mode of
registers. The prefixes and this byte choose a row of the tables, for some rows with the byte behind
it; behind them stands the displacement and then the constants of the layout.

The instruction has all these bytes and no others, and is valid if they are not too many. Its
operand in memory resolves, whatever the registers hold, to the sum of base, scaled index and
displacement modulo the number of offsets, in the segment of the override or else in the stack
segment if the base is BP or SP, and in the data segment if not. -/
theorem decode_address (hAt : c.FieldsAt m k j l) (hMode : (c.byteAt j).toNat / 64 ≠ 3)
    (hMemory : l.hasMemory = true) :
    let p := Prefixes.ofBytes c.wide (c.take k)
    let row := AddressRow.of p.addr32 (c.byteAt j) (c.byteAt (j + 1))
    let disp := c.signedAt (j + 1 + row.choice) row.disp
    let i := decode m c
    i.length = j + 1 + row.choice + row.disp + l.constantBytes p ∧
      (i.length ≤ maxLength → i.isValid = true ∧ i.segment = p.segment ∧ i.addr32 = p.addr32 ∧
        (l.dst.isMemory = true → row.Resolves i.segment i.addr32 disp i.dst) ∧
        (l.src.isMemory = true → row.Resolves i.segment i.addr32 disp i.src)) := by
  intro p row disp i
  obtain ⟨d, hLength, hDecode⟩ := decode_of_opcodeAt hAt.opcodeAt
  obtain ⟨d', hLength', hBody⟩ := hAt.body_eq hLength p
  obtain ⟨i', hRun, hDst, hSrc⟩ := Encoding.exists_instruction (p := p) hAt.memoryFirst hMemory
    hMode c d'
  rw [hLength'] at hRun hDst hSrc
  rw [hRun] at hBody
  have hi : i = _ := hDecode.trans (congrArg Prod.fst (Encoding.afterPrefixes_of_ok hBody))
  rw [Decoder.length_advance, hLength'] at hi
  have hTotal : i.length = j + 1 + (row.choice + row.disp + l.constantBytes p) := by
    rw [hi]
    rfl
  refine ⟨by omega, fun hLe => ?_⟩
  have hFits : ¬ j + 1 + (row.choice + row.disp + l.constantBytes p) > maxLength := by omega
  rw [if_neg hFits] at hi
  have hValid : i.isValid = true := by
    rw [hi]
    exact (accepted_of_follows (accepted_offered hAt.offered)
      (Encoding.follows_instruction hRun)).isValid
  rw [hi] at hValid ⊢
  exact ⟨hValid, rfl, rfl, hDst, hSrc⟩

/-- A move from `[ebp + ecx * 4 - 16]` in code of 16 bits, where EBP holds 8 and ECX holds 1. -/
theorem decode_address_wrapped :
    let c : Code := .ofBus (.holding [0x67, 0x8B, 0x44, 0x8D, 0xF0]) 0 0 false
    let l : Layout := { operation := .mov, size := .full, dst := .reg .full, src := .rm .full }
    let i := decode Model.i80386.features c
    let cpu : Cpu := { regs := { gprs := { ebp := 8, ecx := 1 } } }
    c.FieldsAt Model.i80386.features 1 2 l ∧ (c.byteAt 2).toNat / 64 ≠ 3 ∧
      l.hasMemory = true ∧ i.isValid = true ∧ i.length = 5 ∧
      ∃ place, cpu.resolve i.src true = .mem place ∧ place.seg = .ss ∧
        place.offset = 0xFFFFFFFC := by
  intro c l i cpu
  have hOpcode : c.byteAt 1 = 0x8B := by decide +kernel
  have hAt : c.FieldsAt Model.i80386.features 1 2 l :=
    .first (by decide +kernel) (congrArg (FirstPage.entry _) hOpcode) rfl
  have hMode : (c.byteAt 2).toNat / 64 ≠ 3 := by decide +kernel
  have hSize : (Prefixes.ofBytes c.wide (c.take 1)).addr32 = true := by decide +kernel
  have hRow : AddressRow.of true (c.byteAt 2) (c.byteAt 3) =
      { base := some .bp, index := some .cx, scale := 4, choice := 1, disp := 1 } := by
    decide +kernel
  obtain ⟨hLength, hDecoded⟩ := decode_address hAt hMode rfl
  rw [hSize, hRow] at hLength hDecoded
  obtain ⟨hValid, hSegment, hAddr32, -, hSrc⟩ := hDecoded (by rw [hLength]; decide)
  obtain ⟨place, hPlace, hSeg, -, hOffset⟩ := hSrc rfl cpu
  rw [hSegment] at hSeg
  rw [hAddr32] at hPlace hOffset
  refine ⟨hAt, hMode, rfl, hValid, hLength, place, hPlace, hSeg, ?_⟩
  have hSum : AddressRow.sum
      { base := some .bp, index := some .cx, scale := 4, choice := 1, disp := 1 } cpu.regs true
      (c.signedAt 4 1) = -4 := by decide +kernel
  have hWrapped : (place.offset.toNat : Int) = -4 % Width.dword.values :=
    hOffset.trans (congrArg (fun n : Int => n % Width.dword.values) hSum)
  exact UInt32.toNat_inj.1 (Int.ofNat.inj (hWrapped.trans rfl))

end Decode

end X86
