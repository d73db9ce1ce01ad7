import X86.Proofs.Exec.Primitive

/-!
# Privilege and the flags

Outside ring 0 the I/O privilege level must stay, and above that level the interrupt flag too. POPF
keeps to that. IRET masks the flags after it has loaded the code segment, when the running code is
that of ring 0, so nothing is masked but the virtual 8086 flags.

* `FlagsKept`: the flags that running code may not change are the same before and after.
* `flags_privilege`: **POPF keeps the privileged flags; IRET keeps them only if the image on the
  stack does.**
-/

namespace X86

/-- The flags that the code running on `c` may not change are the same on `c'`. -/
structure FlagsKept (c c' : Cpu) : Prop where
  iopl : c'.regs.flags.iopl = c.regs.flags.iopl
  interrupt : c.regs.flags.iopl < c.cpl → c'.regs.flags.interrupt = c.regs.flags.interrupt
  vm : c'.regs.flags.vm = c.regs.flags.vm
  vif : c'.regs.flags.vif = c.regs.flags.vif
  vip : c'.regs.flags.vip = c.regs.flags.vip

namespace Cpu

variable {c c' : Cpu}

/-- What decides about the privilege of the running code, and the flags. -/
def authority (c : Cpu) : Model × Vector UInt32 5 × SegMap UInt16 × Flags :=
  (c.model, c.regs.control, c.regs.selectors, c.regs.flags)

theorem flags_congr (h : c'.authority = c.authority) : c'.regs.flags = c.regs.flags :=
  congrArg (fun a => a.2.2.2) h

theorem features_congr (h : c'.authority = c.authority) : c'.features = c.features :=
  congrArg (fun a => a.1.features) h

theorem protectedMode_congr (h : c'.authority = c.authority) :
    c'.protectedMode = c.protectedMode := by
  have hControl : c'.regs.control = c.regs.control := congrArg (fun a => a.2.1) h
  rw [protectedMode, cr0, Registers.readControl, hControl]
  rfl

theorem cpl_congr (h : c'.authority = c.authority) : c'.cpl = c.cpl := by
  have hSelectors : c'.regs.selectors = c.regs.selectors := congrArg (fun a => a.2.2.1) h
  rw [cpl, protectedMode_congr h, Registers.selector, hSelectors]
  rfl

/-- Real mode code runs in ring 0. -/
theorem protectedMode_of_cpl (h : c.cpl ≠ .zero) : c.protectedMode = true := by
  by_cases hp : c.protectedMode = true
  · exact hp
  · exact absurd (if_neg hp) h

/-! ### Loading flags -/

theorem iopl_loadFlags (c : Cpu) (v : UInt32) (w : Width) :
    (c.loadFlags v w).regs.flags.iopl =
      if c.features.wideRegisters = true ∧ c.cpl = .zero then Ring.ofLowBits (v.toNat / 0x1000)
      else c.regs.flags.iopl := by
  have hImage : (if w = .dword then c.regs.flags.load32 v else c.regs.flags.load16 v).iopl =
      Ring.ofLowBits (v.toNat / 0x1000) := by split <;> rfl
  change (if _ then _ else Flags.iopl _) = _
  rw [hImage]
  by_cases hWide : c.features.wideRegisters = true <;> by_cases hc : c.cpl = .zero <;>
    simp [hWide, hc]

theorem interrupt_loadFlags (c : Cpu) (v : UInt32) (w : Width) :
    (c.loadFlags v w).regs.flags.interrupt =
      if c.protectedMode = true ∧ c.regs.flags.iopl < c.cpl then c.regs.flags.interrupt
      else bitAt v 9 := by
  have hImage : (if w = .dword then c.regs.flags.load32 v else c.regs.flags.load16 v).interrupt =
      bitAt v 9 := by split <;> rfl
  change (if _ then _ else Flags.interrupt _) = _
  rw [hImage]
  simp only [Bool.and_eq_true, decide_eq_true_iff]

/-- Outside ring 0 an image changes no privileged flag. -/
theorem flagsKept_loadFlags (hc : c.cpl ≠ .zero) (v : UInt32) (w : Width) :
    FlagsKept c (c.loadFlags v w) where
  iopl := by rw [iopl_loadFlags, if_neg fun h => hc h.2]
  interrupt hAbove := by
    rw [interrupt_loadFlags, if_pos ⟨protectedMode_of_cpl hc, hAbove⟩]
  vm := rfl
  vif := rfl
  vip := rfl

end Cpu

theorem FlagsKept.of_authority {c₁ c c' : Cpu} (h : c₁.authority = c.authority)
    (hKept : FlagsKept c₁ c') : FlagsKept c c' := by
  have hFlags := Cpu.flags_congr h
  obtain ⟨hIopl, hInterrupt, hVm, hVif, hVip⟩ := hKept
  rw [hFlags] at hIopl hInterrupt hVm hVif hVip
  rw [Cpu.cpl_congr h] at hInterrupt
  exact ⟨hIopl, hInterrupt, hVm, hVif, hVip⟩

/-- Ring 0 selectors of the global table are multiples of eight. -/
theorem Cpu.and_seven_eq_zero {selector : UInt16} :
    selector &&& 7 = 0 ↔ selector.toNat % 8 = 0 := by
  rw [← UInt16.toNat_inj, UInt16.toNat_and]
  exact iff_of_eq (congrArg (· = 0) (Nat.and_two_pow_sub_one_eq_mod selector.toNat 3))

/-- A ring 0 selector is that of ring 0 code. -/
theorem Cpu.cpl_of_selector {c : Cpu} {selector : UInt16} (hs : selector &&& 7 = 0)
    (h : c.regs.selector .cs = selector) : c.cpl = .zero := by
  have hLow : selector.toNat % 4 = 0 := by
    have hBits := and_seven_eq_zero.1 hs
    omega
  rw [cpl, h]
  split
  · exact Fin.ext hLow
  · rfl

/-- In ring 0 the image decides about the privileged flags. -/
theorem Cpu.flagsKept_loadFlags_iff {c c₁ : Cpu} (hFlags : c₁.regs.flags = c.regs.flags)
    (hFeatures : c₁.features = c.features) (hRing : c₁.cpl = .zero) (v : UInt32) (w : Width) :
    FlagsKept c (c₁.loadFlags v w) ↔
      (c.features.wideRegisters = true →
        Ring.ofLowBits (v.toNat / 0x1000) = c.regs.flags.iopl) ∧
      (c.regs.flags.iopl < c.cpl → bitAt v 9 = c.regs.flags.interrupt) := by
  have hIopl := c₁.iopl_loadFlags v w
  have hInterrupt := c₁.interrupt_loadFlags v w
  rw [hFlags, hFeatures, hRing] at hIopl
  rw [hRing, if_neg fun h => absurd h.2 (Nat.not_lt_zero _)] at hInterrupt
  constructor
  · intro hKept
    refine ⟨fun hWide => ?_, fun hAbove => ?_⟩
    · rw [← hKept.iopl, hIopl, if_pos ⟨hWide, rfl⟩]
    · rw [← hInterrupt, hKept.interrupt hAbove]
  · rintro ⟨hLevel, hMask⟩
    refine ⟨?_, fun hAbove => ?_, ?_, ?_, ?_⟩
    · rw [hIopl]
      split
      · rename_i h
        exact hLevel h.1
      · rfl
    · rw [hInterrupt, hMask hAbove]
    all_goals rw [← hFlags]; rfl

theorem Evolves.authority_eq {m m' : Machine} (h : Evolves (fun _ => False) m m') :
    m'.cpu.authority = m.cpu.authority := by
  refine Evolves.eq_of_change (fun m => m.cpu.authority) ?_ h
  intro m m' hStep
  cases hStep with
  | store | note | jump | count => rfl
  | stack v =>
    rw [Machine.withCpu, Cpu.setStackPointer]
    cases m.cpu.stack32 <;> rfl
  | register _ _ hK | flags _ hK | realSegment _ _ hK | nullSegment _ _ hK | tableSegment _ _ _ hK
  | hold hK | exchange _ hK | control _ _ hK | debug _ _ hK | table _ _ hK | selector _ _ hK
  | halt hK | die hK | serve _ _ _ hK | restore _ hK => exact hK.elim

namespace Exec

variable {m m' : Machine}

/-- IRET pops three values, jumps, and loads the flags. -/
theorem iret_eq_ok {w : Width} (h : iret w m = .ok () m') :
    ∃ f cs eip m₁ m₂, popList w 3 [] m = .ok [f, cs, eip] m₁ ∧
      jumpFar cs.toUInt16 eip m₁ = .ok () m₂ ∧ m' = m₂.withCpu (·.loadFlags f w) := by
  obtain ⟨eip, m₁, hEip, h⟩ := bind_eq_ok.1 h
  obtain ⟨cs, m₂, hCs, h⟩ := bind_eq_ok.1 h
  obtain ⟨f, m₃, hFlags, h⟩ := bind_eq_ok.1 h
  obtain ⟨_, m₄, hJump, h⟩ := bind_eq_ok.1 h
  cases h
  refine ⟨f, cs, eip, m₃, m₄, ?_, hJump, rfl⟩
  rw [popList, bind_of_ok hEip, popList, bind_of_ok hCs, popList, bind_of_ok hFlags]
  rfl

/-- **POPF keeps the privileged flags; IRET keeps them only if the image on the stack does.** IRET
goes on in ring 0, and the rules of ring 0 decide about its flags. -/
theorem flags_privilege (hc : m.cpu.cpl ≠ .zero) :
    (∀ i m', popf i m = .ok () m' → FlagsKept m.cpu m'.cpu) ∧
      ∀ w m', iret w m = .ok () m' → ∃ f cs eip m₁, popList w 3 [] m = .ok [f, cs, eip] m₁ ∧
        m'.cpu.cpl = .zero ∧ m'.cpu.regs.flags.vm = m.cpu.regs.flags.vm ∧
        m'.cpu.regs.flags.vif = m.cpu.regs.flags.vif ∧
        m'.cpu.regs.flags.vip = m.cpu.regs.flags.vip ∧
        (FlagsKept m.cpu m'.cpu ↔
          (m.cpu.features.wideRegisters = true →
            Ring.ofLowBits (f.toNat / 0x1000) = m.cpu.regs.flags.iopl) ∧
          (m.cpu.regs.flags.iopl < m.cpu.cpl → bitAt f 9 = m.cpu.regs.flags.interrupt)) := by
  constructor
  · intro i m' h
    obtain ⟨v, m₁, hPop, hLoad⟩ := bind_eq_ok.1 h
    cases hLoad
    have hAuthority : m₁.cpu.authority = m.cpu.authority :=
      ((Changes.pop i.size).of_ok hPop).authority_eq
    have hRing : m₁.cpu.cpl ≠ .zero := by
      rw [Cpu.cpl_congr hAuthority]
      exact hc
    exact (Cpu.flagsKept_loadFlags hRing v i.size).of_authority hAuthority
  · intro w m' h
    obtain ⟨f, cs, eip, m₁, m₂, hPops, hJump, rfl⟩ := iret_eq_ok h
    have hAuthority : m₁.cpu.authority = m.cpu.authority :=
      ((Changes.popList w 3 []).of_ok hPops).authority_eq
    have hp : m₁.cpu.protectedMode = true := by
      rw [Cpu.protectedMode_congr hAuthority]
      exact Cpu.protectedMode_of_cpl hc
    obtain ⟨hSelector, d, hCpu⟩ := jumpFar_protected hp hJump
    -- the jump changes neither the flags nor the model
    have hFlags : m₂.cpu.regs.flags = m.cpu.regs.flags := by
      rw [hCpu, ← Cpu.flags_congr hAuthority]
      rfl
    have hFeatures : m₂.cpu.features = m.cpu.features := by
      rw [hCpu, ← Cpu.features_congr hAuthority]
      rfl
    have hRing : m₂.cpu.cpl = .zero := by
      rw [hCpu]
      exact Cpu.cpl_of_selector hSelector rfl
    refine ⟨f, cs, eip, m₁, hPops, hRing, ?_, ?_, ?_, ?_⟩
    · rw [← hFlags]
      rfl
    · rw [← hFlags]
      rfl
    · rw [← hFlags]
      rfl
    · exact Cpu.flagsKept_loadFlags_iff hFlags hFeatures hRing f w

/-- Ring 3 code on a stack with an image of the flags that has interrupts unmasked. -/
def returningMachine : Machine :=
  { cpu :=
      { model := .i80386
        regs :=
          { ({} : Registers).writeControl .zero Cpu.protectionBit with
            selectors := (SegMap.replicate 0).set .cs 3
            gprs := { esp := 16 } }
        caches :=
          (SegMap.replicate (Descriptor.realMode 0)).set .ss { limit := 0xFFFF, access := 0x93 }
        gdtr := { base := 0, limit := 15 } }
    bus :=
      { ram := ⟨⟨#[0, 0, 0, 0, 0, 0, 0, 0, 0xFF, 0xFF, 0, 0, 0, 0x9B, 0, 0, 0, 0x50, 8, 0, 0,
          0x32]⟩⟩ } }

theorem flags_privilege_raised :
    returningMachine.cpu.cpl ≠ .zero ∧
      ∃ m', iret .word returningMachine = .ok () m' ∧ ¬ FlagsKept returningMachine.cpu m'.cpu := by
  have hRing : returningMachine.cpu.cpl ≠ .zero := by decide
  have hPops : popList .word 3 [] returningMachine =
      .ok [0x3200, 8, 0x5000] (returningMachine.withCpu (·.setStackPointer 22)) := by rfl
  have hIret : iret .word returningMachine = .ok () (after (iret .word) returningMachine) := by rfl
  obtain ⟨f, cs, eip, m₁, hPops', -, -, -, -, hKept⟩ := (flags_privilege hRing).2 _ _ hIret
  cases hPops.symm.trans hPops'
  exact ⟨hRing, _, hIret, fun h => absurd ((hKept.1 h).1 rfl) (by decide)⟩

end Exec

end X86
