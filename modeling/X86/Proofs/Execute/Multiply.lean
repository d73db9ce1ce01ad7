import X86.Proofs.Alu.Multiply
import X86.Proofs.Machine.Run

/-!
# Multiplication and division of the accumulator

A product of twice the width lies in the accumulator and the register that extends it; a division
takes its dividend from there and leaves the quotient in the accumulator and the remainder in the
other register.

* `Operand.Apart`, `Place.Apart`: an operand has nothing to do with the registers of a product.
* `Registers.double_setDouble`, `signedDividend_setDouble`: a product is read back as the dividend.
* `multiply_apply`, `divide_of_some`: what the two instructions do.
* `multiply_divide`: **products and quotients are exact, and dividing by the operand takes a
  multiplication back.**
-/

namespace X86

/-! ### The registers of a product -/

namespace Register

/-- The general register that a register is part of. -/
def whole? : Register → Option Gpr
  | byte r => some r.parent
  | word r | dword r => some r
  | seg _ => none

/-- The register that takes the remainder of a division: AH, DX or EDX. -/
def remainder : Width → Register
  | .byte => byte .ah
  | .word => word .dx
  | .dword => dword .dx

end Register

/-- The general registers that hold a product of twice the width. -/
def Width.productGprs : Width → List Gpr
  | .byte => [.ax]
  | .word | .dword => [.ax, .dx]

/-- The general registers that an address is computed from. -/
def Address.gprs : Address → List Gpr
  | .direct _ => []
  | .based form _ => form.base :: form.index.toList
  | .indexed base index _ _ => base.toList ++ index.toList

/-- The general registers that an operand names. -/
def Operand.gprs : Operand → List Gpr
  | .reg r => r.whole?.toList
  | .mem _ _ a => a.gprs
  | _ => []

/-- The operand names no register of a product. -/
def Operand.Apart (o : Operand) (w : Width) : Prop := ∀ r ∈ o.gprs, r ∉ w.productGprs

/-- The place is no register of a product. -/
def Place.Apart (p : Place) (w : Width) : Prop :=
  ∀ r, p = .reg r → ∀ g ∈ r.whole?, g ∉ w.productGprs

instance (o : Operand) (w : Width) : Decidable (o.Apart w) :=
  inferInstanceAs (Decidable (∀ _ ∈ _, _))

theorem Place.apart_resolve {o : Operand} {w : Width} (h : o.Apart w) (c : Cpu) (wide : Bool) :
    (c.resolve o wide).Apart w := by
  intro r hr g hg
  cases o <;> cases hr
  exact h g (by simpa [Operand.gprs] using hg)

namespace Registers

variable (g : Registers) (w : Width)

theorem get_setDouble (v : UInt64) {r : Gpr} (hr : r ∉ w.productGprs) :
    (g.setDouble w v).gprs.get r = g.gprs.get r := by
  cases w with
  | byte =>
    have hAx : r ≠ .ax := by simpa [Width.productGprs] using hr
    exact Gprs.get_set_ne _ _ hAx
  | word | dword =>
    obtain ⟨hAx, hDx⟩ : r ≠ .ax ∧ r ≠ .dx := by simpa [Width.productGprs] using hr
    exact (Gprs.get_set_ne _ _ hDx).trans (Gprs.get_set_ne _ _ hAx)

theorem selectors_setDouble (v : UInt64) : (g.setDouble w v).selectors = g.selectors := by
  cases w <;> rfl

theorem control_setDouble (v : UInt64) : (g.setDouble w v).control = g.control := by
  cases w <;> rfl

/-- A register is read from the general register that it is part of, or is a selector. -/
theorem read_congr {g g' : Registers} {r : Register}
    (hGprs : ∀ x ∈ r.whole?, g'.gprs.get x = g.gprs.get x)
    (hSelectors : g'.selectors = g.selectors) : g'.read r = g.read r := by
  cases r with
  | byte r => simp only [read, byte, hGprs r.parent rfl]
  | word r => simp only [read, word, hGprs r rfl]
  | dword r => exact hGprs r rfl
  | seg s => simp only [read, selector, hSelectors]

theorem word_setWord_ne {r s : Gpr} (v : UInt16) (h : s ≠ r) : (g.setWord r v).word s = g.word s :=
  congrArg UInt32.toUInt16 (Gprs.get_set_ne _ _ h)

theorem dword_setDword_ne {r s : Gpr} (v : UInt32) (h : s ≠ r) :
    (g.setDword r v).dword s = g.dword s :=
  Gprs.get_set_ne _ _ h

/-! ### Dividends -/

/-- Two parts of a word that do not overlap. -/
theorem toNat_shiftLeft_or {high low k : UInt64} (hk : k.toNat < 64)
    (hLow : low.toNat < 2 ^ k.toNat) (hHigh : high.toNat * 2 ^ k.toNat < 2 ^ 64) :
    (high <<< k ||| low).toNat = high.toNat * 2 ^ k.toNat + low.toNat := by
  rw [UInt64.toNat_or, UInt64.toNat_shiftLeft, Nat.mod_eq_of_lt hk, Nat.shiftLeft_eq,
    Nat.mod_eq_of_lt hHigh, Nat.mul_comm, Nat.two_pow_add_eq_or_of_lt hLow]

/-- A value of twice the width reads back. -/
theorem double_setDouble (v : UInt64) :
    ((g.setDouble w v).double w).toNat = v.toNat % (w.values * w.values) := by
  have hv := v.toNat_lt
  cases w with
  | byte =>
    rw [double, setDouble, word_setWord, UInt16.toNat_toUInt64, UInt64.toNat_toUInt16]
    rfl
  | word =>
    have hHigh : (v >>> 16).toUInt16.toNat = v.toNat / 0x10000 % 0x10000 := by
      rw [UInt64.toNat_toUInt16, UInt64.toNat_shiftRight, Nat.shiftRight_eq_div_pow]
      rfl
    have hLow : v.toUInt16.toNat = v.toNat % 0x10000 := UInt64.toNat_toUInt16 v
    rw [double, setDouble, word_setWord, word_setWord_ne _ _ (by decide), word_setWord,
      toNat_shiftLeft_or (by decide), UInt16.toNat_toUInt64, UInt16.toNat_toUInt64, hHigh, hLow]
    · simp only [UInt64.reduceToNat, Width.values]
      omega
    · rw [UInt16.toNat_toUInt64, hLow]
      exact Nat.mod_lt _ (by decide)
    · rw [UInt16.toNat_toUInt64, hHigh]
      simp only [UInt64.reduceToNat]
      omega
  | dword =>
    have hHigh : (v >>> 32).toUInt32.toNat = v.toNat / 0x100000000 % 0x100000000 := by
      rw [UInt64.toNat_toUInt32, UInt64.toNat_shiftRight, Nat.shiftRight_eq_div_pow]
      rfl
    have hLow : v.toUInt32.toNat = v.toNat % 0x100000000 := UInt64.toNat_toUInt32 v
    rw [double, setDouble, dword_setDword, dword_setDword_ne _ _ (by decide), dword_setDword,
      toNat_shiftLeft_or (by decide), UInt32.toNat_toUInt64, UInt32.toNat_toUInt64, hHigh, hLow]
    · simp only [UInt64.reduceToNat, Width.values]
      omega
    · rw [UInt32.toNat_toUInt64, hLow]
      exact Nat.mod_lt _ (by decide)
    · rw [UInt32.toNat_toUInt64, hHigh]
      simp only [UInt64.reduceToNat]
      omega

/-! ### Quotients -/

theorem toUInt8_replaceHigh_low (x : UInt32) (v : UInt8) :
    (replaceHigh x v).toUInt8 = x.toUInt8 := by
  rw [← UInt8.toNat_inj, UInt32.toNat_toUInt8, UInt32.toNat_toUInt8]
  refine Nat.eq_of_testBit_eq fun n => ?_
  rw [Nat.testBit_mod_two_pow, Nat.testBit_mod_two_pow]
  by_cases hn : n < 8
  · have hBit := bitAt_replaceHigh x v (n := n) (by omega)
    rw [if_neg (by omega), bitAt, bitAt] at hBit
    rw [hBit]
  · simp [hn]

theorem read_accumulator_setQuotient (quotient remainder : UInt32) :
    (g.setQuotient w quotient remainder).read (.accumulator w) = w.truncate quotient := by
  cases w with
  | byte =>
    have hLow : ((g.setByte .al quotient.toUInt8).setByte .ah remainder.toUInt8).byte .al =
        (g.setByte .al quotient.toUInt8).byte .al := toUInt8_replaceHigh_low _ _
    exact (congrArg UInt8.toUInt32 hLow).trans (read_write_self g (.byte .al) quotient)
  | word =>
    have hLow : ((g.setWord .ax quotient.toUInt16).setWord .dx remainder.toUInt16).word .ax =
        (g.setWord .ax quotient.toUInt16).word .ax := word_setWord_ne _ _ (by decide)
    exact (congrArg UInt16.toUInt32 hLow).trans (read_write_self g (.word .ax) quotient)
  | dword =>
    have hLow : ((g.setDword .ax quotient).setDword .dx remainder).dword .ax =
        (g.setDword .ax quotient).dword .ax := dword_setDword_ne _ _ (by decide)
    exact hLow.trans (read_write_self g (.dword .ax) quotient)

theorem read_remainder_setQuotient (quotient remainder : UInt32) :
    (g.setQuotient w quotient remainder).read (.remainder w) = w.truncate remainder := by
  cases w with
  | byte => exact read_write_self _ (.byte .ah) remainder
  | word => exact read_write_self _ (.word .dx) remainder
  | dword => exact read_write_self _ (.dword .dx) remainder

end Registers

/-! ### Reading the operand -/

namespace Cpu

variable {c c' : Cpu} {o : Operand} {p : Place} {w : Width}

/-- An address is computed from the registers that it names. -/
theorem resolve_congr (h : ∀ r ∈ o.gprs, c'.regs.gprs.get r = c.regs.gprs.get r) (wide : Bool) :
    c'.resolve o wide = c.resolve o wide := by
  have hWord {r : Gpr} (hr : c'.regs.gprs.get r = c.regs.gprs.get r) :
      c'.regs.word r = c.regs.word r := congrArg UInt32.toUInt16 hr
  cases o with
  | mem w segment a =>
    have hAddress : c'.effectiveAddress a wide = c.effectiveAddress a wide := by
      cases a with
      | direct v => rfl
      | based form disp =>
        have hBase := hWord (h form.base List.mem_cons_self)
        cases hIndex : form.index with
        | none => simp only [effectiveAddress, hBase, hIndex]
        | some x =>
          have hOther : c'.regs.word x = c.regs.word x :=
            hWord (h x (by simp [Operand.gprs, Address.gprs, hIndex]))
          simp only [effectiveAddress, hBase, hIndex, hOther]
      | indexed base index scale disp =>
        have hBase : ∀ x ∈ base, c'.regs.dword x = c.regs.dword x := fun x hx =>
          h x (by simp_all [Operand.gprs, Address.gprs])
        have hIndex : ∀ x ∈ index, c'.regs.dword x = c.regs.dword x := fun x hx =>
          h x (by simp_all [Operand.gprs, Address.gprs])
        cases base <;> cases index <;> simp_all [effectiveAddress]
    simp only [resolve, hAddress]
  | _ => rfl

/-- What a place holds depends on the mode and the descriptors, and on a register only if the place
is that register. -/
theorem readPlace_congr (hControl : c'.regs.control = c.regs.control)
    (hCaches : c'.caches = c.caches)
    (hReg : ∀ r, p = .reg r → c'.regs.read r = c.regs.read r) (b : Bus) (w : Width) :
    c'.readPlace b p w = c.readPlace b p w := by
  cases p with
  | reg r => simp only [readPlace, hReg r rfl]
  | mem l =>
    have hMode : c'.protectedMode = c.protectedMode := by
      rw [protectedMode, cr0, Registers.readControl, hControl]
      rfl
    have hBase : c'.segmentBase l.seg = c.segmentBase l.seg := by
      rw [segmentBase, hCaches, segmentBase]
    have hMay : c'.mayAccess l w.bytes .read = c.mayAccess l w.bytes .read := by
      simp only [mayAccess, hMode, hCaches]
    have hBytes : c'.loadBytes b l w = c.loadBytes b l w := by
      simp only [loadBytes, byteAddress, hBase]
    rw [readPlace, readPlace, read_eq, read_eq, checkAccess, checkAccess, hMay, hBytes]
  | value _ | nowhere => rfl

/-- What an operand reads as fits its width. -/
theorem truncate_of_readPlace {b : Bus} {v : UInt32} (h : c.readPlace b p w = .ok v) :
    w.truncate v = v := by
  cases p with
  | reg r =>
    cases h
    exact w.truncate_truncate _
  | mem l =>
    rw [readPlace, read_eq] at h
    cases hCheck : c.checkAccess l w.bytes .read with
    | error e =>
      rw [hCheck] at h
      cases h
    | ok _ =>
      rw [hCheck] at h
      cases h
      exact truncate_loadBytes ..
  | value _ =>
    cases h
    exact w.truncate_truncate _
  | nowhere => cases h

end Cpu

/-! ### The two instructions -/

namespace Exec

theorem signedDividend_eq (w : Width) (v : UInt64) :
    signedDividend w v =
      if v.toNat % (w.values * w.values) < w.values * w.half then
        ((v.toNat % (w.values * w.values) : Nat) : Int)
      else (v.toNat % (w.values * w.values) : Nat) - (w.values * w.values : Nat) := by
  cases w with
  | byte =>
    have hRead := toInt_bits v.toUInt16.toBitVec 0x8000 rfl rfl
    rwa [UInt16.toNat_toBitVec, UInt64.toNat_toUInt16] at hRead
  | word =>
    have hRead := toInt_bits v.toUInt32.toBitVec 0x80000000 rfl rfl
    rwa [UInt32.toNat_toBitVec, UInt64.toNat_toUInt32] at hRead
  | dword =>
    have hRead := toInt_bits v.toBitVec 0x8000000000000000 rfl rfl
    rwa [UInt64.toNat_toBitVec, ← Nat.mod_eq_of_lt v.toNat_lt] at hRead

/-- A signed product is read back as the dividend. -/
theorem signedDividend_setDouble (g : Registers) (w : Width) (a b : UInt32) :
    signedDividend w ((g.setDouble w (UInt64.ofInt (w.toInt a * w.toInt b))).double w) =
      w.toInt a * w.toInt b := by
  have hSize := Alu.natAbs_mul_le w a b
  generalize w.toInt a * w.toInt b = p at hSize ⊢
  have hNat : (UInt64.ofInt p).toNat = (p % 0x10000000000000000).toNat := by
    rw [UInt64.ofInt, UInt64.toNat_ofNat']
    omega
  rw [signedDividend_eq, Registers.double_setDouble, Nat.mod_mod, hNat]
  by_cases hSign : (p % 0x10000000000000000).toNat % (w.values * w.values) < w.values * w.half
  · rw [if_pos hSign]
    cases w <;> simp only [Width.values, Width.half] at hSize hSign ⊢ <;> omega
  · rw [if_neg hSign]
    cases w <;> simp only [Width.values, Width.half] at hSize hSign ⊢ <;> omega

/-- The product of the accumulator and `b`, with its flags. -/
def product (signed : Bool) (c : Cpu) (w : Width) (b : UInt32) : UInt64 × Flags :=
  if signed then Alu.imul c.features w (c.regs.read (.accumulator w)) b c.regs.flags
  else Alu.mul c.features w (c.regs.read (.accumulator w)) b c.regs.flags

/-- The quotient of the extended accumulator by `b`, and the remainder. -/
def quotient? (signed : Bool) (c : Cpu) (w : Width) (b : UInt32) : Option (UInt32 × UInt32) :=
  if signed then Alu.idiv c.features w (signedDividend w (c.regs.double w)) b
  else Alu.div w (c.regs.double w) b

/-- The processor after a multiplication by `b`. -/
def multiplied (signed : Bool) (w : Width) (b : UInt32) (c : Cpu) : Cpu :=
  { c with regs := c.regs.setDouble w (product signed c w b).1 }.setFlags (product signed c w b).2

/-- The processor after a division. -/
def divided (w : Width) (quotient remainder : UInt32) (c : Cpu) : Cpu :=
  { c with regs := c.regs.setQuotient w quotient remainder }

variable {signed : Bool} {i j : Instruction} {w : Width} {b : UInt32} {m m₁ : Machine}

theorem multiply_apply (hSize : i.size = w)
    (h : m.cpu.readPlace m.bus (m.cpu.resolve i.dst i.addr32) w = .ok b) :
    multiply signed i m = .ok () (m.withCpu (multiplied signed w b)) := by
  subst hSize
  have hRead : readPlace (m.cpu.resolve i.dst i.addr32) i.size m = .ok b m := by
    rw [readPlace_apply, h, check_ok, pure_apply]
  rw [multiply, bind_of_ok (place_apply i i.dst m), bind_of_ok hRead, bind_of_ok (cpu_apply m),
    ← product, Machine.withCpu, multiplied]
  generalize product signed m.cpu i.size b = answer
  rfl

theorem divide_of_some {q r : UInt32} (hSize : i.size = w)
    (h : m.cpu.readPlace m.bus (m.cpu.resolve i.dst i.addr32) w = .ok b)
    (hAnswer : quotient? signed m.cpu w b = some (q, r)) :
    divide signed i m = .ok () (m.withCpu (divided w q r)) := by
  subst hSize
  have hRead : readPlace (m.cpu.resolve i.dst i.addr32) i.size m = .ok b m := by
    rw [readPlace_apply, h, check_ok, pure_apply]
  rw [divide, bind_of_ok (place_apply i i.dst m), bind_of_ok hRead, bind_of_ok (cpu_apply m)]
  cases signed with
  | true =>
    rw [quotient?, if_pos rfl] at hAnswer
    simp only [if_true, hAnswer]
    rfl
  | false =>
    rw [quotient?, if_neg Bool.false_ne_true] at hAnswer
    simp only [Bool.false_eq_true, if_false, hAnswer]
    rfl

/-- Dividing a product by one factor gives the other one, which was in the accumulator. -/
theorem quotient_multiplied {c : Cpu} (hb : w.truncate b ≠ 0)
    (hLowest : ¬ (signed = true ∧ c.model = .i8086 ∧
      w.toInt (c.regs.read (.accumulator w)) = -w.half)) :
    quotient? signed (multiplied signed w b c) w b = some (c.regs.read (.accumulator w), 0) := by
  have hAccumulator := c.regs.truncate_accumulator w
  cases signed with
  | true =>
    have hSigned : w.toInt b ≠ 0 := by
      intro hZero
      have hNull : w.toInt 0 = 0 := by cases w <;> rfl
      have hSame : w.truncate b = w.truncate 0 := w.toInt_inj.1 (hZero.trans hNull.symm)
      exact hb (hSame.trans (by cases w <;> rfl))
    have hDividend : signedDividend w ((multiplied true w b c).regs.double w) =
        w.toInt (c.regs.read (.accumulator w)) * w.toInt b := signedDividend_setDouble ..
    rw [quotient?, if_pos rfl, hDividend]
    exact (Alu.idiv_mul w _ _ hSigned fun h => hLowest ⟨rfl, h⟩).trans (by rw [hAccumulator])
  | false =>
    have hDividend : (multiplied false w b c).regs.double w =
        (Alu.mul c.features w (c.regs.read (.accumulator w)) b c.regs.flags).1 := by
      have hFits : (w.truncate (c.regs.read (.accumulator w))).toNat * (w.truncate b).toNat <
          w.values * w.values :=
        Nat.mul_lt_mul'' (w.toNat_truncate_lt _) (w.toNat_truncate_lt _)
      rw [← UInt64.toNat_inj]
      refine (Registers.double_setDouble ..).trans ?_
      rw [product, if_neg Bool.false_ne_true, Alu.toNat_mul, Nat.mod_eq_of_lt hFits]
    rw [quotient?, if_neg Bool.false_ne_true, hDividend, Alu.div_mul _ _ _ _ _ hb, hAccumulator]

/-! ### One after the other -/

theorem resolve_begin (c : Cpu) (i : Instruction) (o : Operand) (wide : Bool) :
    (c.begin i).resolve o wide = c.resolve o wide :=
  Cpu.resolve_congr (fun _ _ => rfl) wide

theorem readPlace_begin (c : Cpu) (i : Instruction) (bus : Bus) (p : Place) (w : Width) :
    (c.begin i).readPlace bus p w = c.readPlace bus p w :=
  Cpu.readPlace_congr rfl rfl (fun _ _ => Registers.read_congr (fun _ _ => rfl) rfl) bus w

theorem quotient_begin (c : Cpu) (i : Instruction) :
    quotient? signed (c.begin i) w b = quotient? signed c w b := by
  have hDividend : (c.begin i).regs.double w = c.regs.double w := by cases w <;> rfl
  have hFeatures : (c.begin i).features = c.features := rfl
  rw [quotient?, quotient?, hDividend, hFeatures]

theorem resolve_multiplied {o : Operand} (h : o.Apart w) (c : Cpu) (wide : Bool) :
    (multiplied signed w b c).resolve o wide = c.resolve o wide :=
  Cpu.resolve_congr (fun r hr => c.regs.get_setDouble w _ (h r hr)) wide

theorem readPlace_multiplied {p : Place} (h : p.Apart w) (c : Cpu) (bus : Bus) :
    (multiplied signed w b c).readPlace bus p w = c.readPlace bus p w := by
  have hControl : (multiplied signed w b c).regs.control = c.regs.control :=
    c.regs.control_setDouble w _
  have hCaches : (multiplied signed w b c).caches = c.caches := rfl
  refine Cpu.readPlace_congr hControl hCaches (fun r hr => ?_) bus w
  exact Registers.read_congr (fun x hx => c.regs.get_setDouble w _ (h r hr x hx))
    (c.regs.selectors_setDouble w _)

/-- Multiplying by an operand apart from the product and dividing by it again gives the accumulator
back, with no remainder. -/
theorem divide_of_multiply (hi : i.Does (.multiply signed) w)
    (hApart : (m.cpu.resolve i.dst i.addr32).Apart w)
    (hRead : m.cpu.readPlace m.bus (m.cpu.resolve i.dst i.addr32) w = .ok b) (hb : b ≠ 0)
    (hLowest : ¬ (signed = true ∧ m.cpu.model = .i8086 ∧
      w.toInt (m.cpu.regs.read (.accumulator w)) = -w.half)) :
    ∃ m₁, Performs i m m₁ ∧
      (i.dst.Apart w → m₁.cpu.resolve i.dst i.addr32 = m.cpu.resolve i.dst i.addr32) ∧
      ∀ j : Instruction, j.Does (.divide signed) w →
        m₁.cpu.resolve j.dst j.addr32 = m.cpu.resolve i.dst i.addr32 →
        ∃ m₂, Performs j m₁ m₂ ∧
          m₂.cpu.regs.read (.accumulator w) = m.cpu.regs.read (.accumulator w) ∧
          m₂.cpu.regs.read (.remainder w) = 0 := by
  have hFetched : (fetched m i).cpu.readPlace (fetched m i).bus
      ((fetched m i).cpu.resolve i.dst i.addr32) w = .ok b := by
    rw [← hRead, ← resolve_begin m.cpu i, ← readPlace_begin m.cpu i]
    rfl
  let m₁ := (fetched m i).withCpu (multiplied signed w b)
  refine ⟨m₁, ?_, fun hNamed => ?_, fun j hj hSame => ?_⟩
  · rw [Performs, perform_of_does hi, once, hi.operation]
    exact multiply_apply hi.size hFetched
  · exact (resolve_multiplied hNamed _ _).trans (resolve_begin ..)
  · have hAgain : (fetched m₁ j).cpu.readPlace (fetched m₁ j).bus
        ((fetched m₁ j).cpu.resolve j.dst j.addr32) w = .ok b := by
      calc (m₁.cpu.begin j).readPlace m.bus ((m₁.cpu.begin j).resolve j.dst j.addr32) w
        _ = m₁.cpu.readPlace m.bus (m.cpu.resolve i.dst i.addr32) w := by
          rw [readPlace_begin, resolve_begin, hSame]
        _ = (m.cpu.begin i).readPlace m.bus (m.cpu.resolve i.dst i.addr32) w :=
          readPlace_multiplied hApart _ _
        _ = .ok b := by rw [readPlace_begin, hRead]
    have hAnswer : quotient? signed (fetched m₁ j).cpu w b =
        some (m.cpu.regs.read (.accumulator w), 0) := by
      refine (quotient_begin m₁.cpu j).trans (quotient_multiplied (c := m.cpu.begin i) ?_ hLowest)
      rwa [Cpu.truncate_of_readPlace hRead]
    refine ⟨(fetched m₁ j).withCpu (divided w (m.cpu.regs.read (.accumulator w)) 0), ?_, ?_, ?_⟩
    · rw [Performs, perform_of_does hj, once, hj.operation]
      exact divide_of_some hj.size hAgain hAnswer
    · exact (Registers.read_accumulator_setQuotient ..).trans (m.cpu.regs.truncate_accumulator w)
    · exact (Registers.read_remainder_setQuotient ..).trans (by cases w <;> rfl)

/-- **Products and quotients are exact, and dividing by the operand takes a multiplication back.** A
division has no answer exactly if the divisor is zero or the quotient is out of range. The operand
of the two instructions is one place: no register of the product, and addressed through none, unless
both address the same memory. Only the 8086 does not get its lowest accumulator back. -/
theorem multiply_divide (w : Width) :
    (∀ (model : Model) (a b : UInt32) (f : Flags),
      Alu.ShowsProduct (Alu.mul model.features w a b f).2 (Alu.mul model.features w a b f).1.toNat
          ((w.truncate a).toNat * (w.truncate b).toNat) w.OutOfUnsignedRange ∧
        Alu.ShowsProduct (Alu.imul model.features w a b f).2
          (Alu.imul model.features w a b f).1.toInt64.toInt (w.toInt a * w.toInt b)
          w.OutOfSignedRange) ∧
    (∀ (n : UInt64) (d : UInt32),
      (Alu.div w n d = none ↔
          (w.truncate d).toNat = 0 ∨ w.values ≤ n.toNat / (w.truncate d).toNat) ∧
        ∀ q r, Alu.div w n d = some (q, r) →
          Alu.Division n.toNat (w.truncate d).toNat q.toNat r.toNat) ∧
    (∀ (model : Model) (n : Int) (d : UInt32),
      (Alu.idiv model.features w n d = none ↔
          w.toInt d = 0 ∨ w.OutOfQuotientRange model (n.tdiv (w.toInt d))) ∧
        ∀ q r, Alu.idiv model.features w n d = some (q, r) →
          Alu.Division n (w.toInt d) (w.toInt q) (w.toInt r)) ∧
    ∀ (signed : Bool) (i : Instruction) (m : Machine) (b : UInt32),
      i.Does (.multiply signed) w → (m.cpu.resolve i.dst i.addr32).Apart w →
      m.cpu.readPlace m.bus (m.cpu.resolve i.dst i.addr32) w = .ok b → b ≠ 0 →
      ¬ (signed = true ∧ m.cpu.model = .i8086 ∧
        w.toInt (m.cpu.regs.read (.accumulator w)) = -w.half) →
      ∃ m₁, Performs i m m₁ ∧
        (i.dst.Apart w → m₁.cpu.resolve i.dst i.addr32 = m.cpu.resolve i.dst i.addr32) ∧
        ∀ j : Instruction, j.Does (.divide signed) w →
          m₁.cpu.resolve j.dst j.addr32 = m.cpu.resolve i.dst i.addr32 →
          ∃ m₂, Performs j m₁ m₂ ∧
            m₂.cpu.regs.read (.accumulator w) = m.cpu.regs.read (.accumulator w) ∧
            m₂.cpu.regs.read (.remainder w) = 0 := by
  refine ⟨fun model a b f => ?_, fun n d => ?_, fun model n d => ?_, fun signed i m b => ?_⟩
  · exact ⟨Alu.shows_mul _ w a b f, Alu.shows_imul _ w a b f⟩
  · exact ⟨Alu.div_eq_none_iff w, fun q r => Alu.division_div w⟩
  · exact ⟨Alu.idiv_eq_none_iff w, fun q r => Alu.division_idiv w⟩
  · exact divide_of_multiply

/-- Minus two times three in memory, and back. -/
theorem multiply_divide_memory :
    let m : Machine :=
      { cpu := { regs := { gprs := { eax := 0xFFFE, ebx := 4 } } }
        bus := { ram := ⟨⟨#[0, 0, 0, 0, 3, 0]⟩⟩ } }
    let i : Instruction :=
      { operation := .multiply true, dst := .mem .word none (.based .bx 0), length := 2 }
    let j : Instruction := { i with operation := .divide true }
    i.Does (.multiply true) .word ∧ i.dst.Apart .word ∧ j.Does (.divide true) .word ∧
      m.cpu.readPlace m.bus (m.cpu.resolve i.dst i.addr32) .word = .ok 3 ∧
      ¬ (true = true ∧ m.cpu.model = .i8086 ∧
        Width.word.toInt (m.cpu.regs.read (.accumulator .word)) = -Width.word.half) ∧
      ∃ m₁ m₂, Performs i m m₁ ∧ Performs j m₁ m₂ ∧
        m₂.cpu.regs.read (.accumulator .word) = 0xFFFE ∧
        m₂.cpu.regs.read (.remainder .word) = 0 := by
  intro m i j
  have hi : i.Does (.multiply true) .word := ⟨rfl, rfl, rfl⟩
  have hj : j.Does (.divide true) .word := ⟨rfl, rfl, rfl⟩
  have hApart : i.dst.Apart .word := by decide
  have hRead : m.cpu.readPlace m.bus (m.cpu.resolve i.dst i.addr32) .word = .ok 3 := by
    refine (Cpu.read_eq ..).trans ?_
    rw [Cpu.checkAccess_of_real (by decide)]
    exact congrArg Except.ok (by decide +kernel)
  have hLowest : ¬ (true = true ∧ m.cpu.model = .i8086 ∧
      Width.word.toInt (m.cpu.regs.read (.accumulator .word)) = -Width.word.half) := by
    decide +kernel
  obtain ⟨m₁, hFirst, hSame, hBack⟩ := (multiply_divide .word).2.2.2 true i m 3 hi
    (Place.apart_resolve hApart m.cpu i.addr32) hRead (by decide) hLowest
  obtain ⟨m₂, hSecond, hAccumulator, hRemainder⟩ := hBack j hj (hSame hApart)
  exact ⟨hi, hApart, hj, hRead, hLowest, m₁, m₂, hFirst, hSecond,
    hAccumulator.trans (by decide +kernel), hRemainder⟩

end Exec

end X86
