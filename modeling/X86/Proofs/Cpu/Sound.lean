import X86.Proofs.Cpu.Move

/-!
# The processor of a running machine

`Cpu.Sound wide` is the invariant of the processor while a machine runs.

* `Cpu.Narrow`: a processor with 16-bit registers never leaves the state that real mode describes.
* `Cpu.Move.sound`: **every move keeps the invariant.**
-/

namespace X86

/-! ### Narrow registers -/

theorem le_ffff_iff {v : UInt32} : v ≤ 0xFFFF ↔ v.toNat < UInt16.size :=
  UInt32.le_iff_toNat_le.trans Nat.lt_succ_iff.symm

/-- A masked word with something narrow put into it is narrow. -/
theorem and_or_le {x m y : UInt32} (hx : x ≤ 0xFFFF) (hy : y ≤ 0xFFFF) :
    (x &&& m) ||| y ≤ 0xFFFF := by
  rw [le_ffff_iff] at hx hy ⊢
  rw [UInt32.toNat_or, UInt32.toNat_and]
  exact Nat.or_lt_two_pow (n := 16) (Nat.lt_of_le_of_lt Nat.and_le_left hx) hy

theorem replaceLow_le {x : UInt32} (hx : x ≤ 0xFFFF) (v : UInt8) : replaceLow x v ≤ 0xFFFF := by
  refine and_or_le hx (le_ffff_iff.2 ?_)
  rw [UInt8.toNat_toUInt32]
  exact Nat.lt_trans v.toNat_lt (by decide)

theorem replaceHigh_le {x : UInt32} (hx : x ≤ 0xFFFF) (v : UInt8) : replaceHigh x v ≤ 0xFFFF := by
  refine and_or_le hx (le_ffff_iff.2 ?_)
  have hv := v.toNat_lt
  rw [UInt32.toNat_shiftLeft, UInt8.toNat_toUInt32, Nat.shiftLeft_eq]
  simp [UInt16.size]
  omega

theorem replaceWord_le {x : UInt32} (hx : x ≤ 0xFFFF) (v : UInt16) : replaceWord x v ≤ 0xFFFF := by
  refine and_or_le hx (le_ffff_iff.2 ?_)
  rw [UInt16.toNat_toUInt32]
  exact v.toNat_lt

/-- All general registers are narrow. -/
def Gprs.Narrow (g : Gprs) : Prop := ∀ r, g.get r ≤ 0xFFFF

theorem Gprs.Narrow.set {g : Gprs} (hg : g.Narrow) {r : Gpr} {v : UInt32} (hv : v ≤ 0xFFFF) :
    (g.set r v).Narrow := by
  intro r'
  by_cases h : r' = r
  · rw [h, Gprs.get_set_self]
    exact hv
  · rw [Gprs.get_set_ne _ _ h]
    exact hg r'

theorem Registers.narrow_write {g : Registers} (hg : g.gprs.Narrow) {r : Register}
    (hr : r.width ≠ .dword) (v : UInt32) : (g.write r v).gprs.Narrow := by
  cases r with
  | byte b =>
    refine hg.set ?_
    split
    · exact replaceHigh_le (hg _) _
    · exact replaceLow_le (hg _) _
  | word r => exact hg.set (replaceWord_le (hg r) _)
  | dword r => exact absurd rfl hr
  | seg s => exact hg

namespace Cpu

/-! ### The invariant -/

/-- A processor with 16-bit registers, in the state that real mode describes. -/
structure Narrow (c : Cpu) : Prop where
  real : c.protectedMode = false
  gdtr : c.gdtr = {}
  idtr : c.idtr = .realModeVectors
  ldtr : c.ldtr = 0
  tr : c.tr = 0
  /-- Every descriptor follows from its selector. -/
  caches : ∀ s, c.caches.get s = .realMode (c.regs.selector s)
  fs : c.regs.selector .fs = 0
  gs : c.regs.selector .gs = 0
  gprs : c.regs.gprs.Narrow
  eip : c.regs.eip ≤ 0xFFFF
  /-- The I/O privilege level is zero, and the flags that came with wide registers are clear. -/
  flags : c.regs.flags.SameSystem {}

/-- What holds of the processor while a machine runs. -/
structure Sound (wide : Bool) (c : Cpu) : Prop where
  model : c.features.wideRegisters = wide
  /-- An offset in a 16-bit code segment has 16 bits. -/
  eip : c.code32 = true ∨ c.regs.eip ≤ 0xFFFF
  narrow : wide = false → c.Narrow

theorem Sound.stack32_eq {wide : Bool} {c : Cpu} (hc : c.Sound wide) (hw : wide = false) :
    c.stack32 = false := by
  rw [stack32, show c.caches.ss = _ from (hc.narrow hw).caches .ss]
  rfl

theorem Sound.code32_eq {wide : Bool} {c : Cpu} (hc : c.Sound wide) (hw : wide = false) :
    c.code32 = false := by
  rw [code32, show c.caches.cs = _ from (hc.narrow hw).caches .cs]
  rfl

theorem Sound.fits_snapshot {wide : Bool} {c : Cpu} (hc : c.Sound wide) :
    c.snapshot.Fits wide :=
  ⟨hc.eip, fun hw => ⟨(hc.narrow hw).caches .cs, (hc.narrow hw).gprs .sp⟩⟩

/-! ### Moves of a narrow processor -/

namespace Narrow

variable {c : Cpu}

/-- New registers keep a processor narrow if they leave mode and selectors alone. -/
theorem withRegs (hc : c.Narrow) {g : Registers} (hControl : g.control = c.regs.control)
    (hSelectors : g.selectors = c.regs.selectors) (hGprs : g.gprs.Narrow) (hEip : g.eip ≤ 0xFFFF)
    (hFlags : g.flags.SameSystem {}) : { c with regs := g }.Narrow := by
  have hSelector (s : SegReg) : g.selector s = c.regs.selector s := by
    rw [Registers.selector, hSelectors]
    rfl
  refine ⟨?_, hc.gdtr, hc.idtr, hc.ldtr, hc.tr, fun s => ?_, ?_, ?_, hGprs, hEip, hFlags⟩
  · have hReal := hc.real
    rw [protectedMode, cr0, Registers.readControl] at hReal ⊢
    rwa [hControl]
  · exact (hc.caches s).trans (congrArg _ (hSelector s).symm)
  · exact (hSelector .fs).trans hc.fs
  · exact (hSelector .gs).trans hc.gs

theorem writeRegister (hc : c.Narrow) {r : Register} (hr : r.isSegment = false)
    (hw : r.width ≠ .dword) (v : UInt32) : (c.writeRegister r v).Narrow := by
  refine hc.withRegs (Registers.control_write ..) (Registers.selectors_write _ _ hr)
    (Registers.narrow_write hc.gprs hw v) ?_ ?_
  · rw [Registers.eip_write]
    exact hc.eip
  · rw [Registers.flags_write]
    exact hc.flags

theorem setStackPointer (hc : c.Narrow) (v : UInt32) : (c.setStackPointer v).Narrow := by
  have hSmall : c.stack32 = false := by
    rw [stack32, show c.caches.ss = _ from hc.caches .ss]
    rfl
  rw [Cpu.setStackPointer, hSmall]
  exact hc.writeRegister rfl (by decide) v

theorem setEip (hc : c.Narrow) {v : UInt32} (hv : v ≤ 0xFFFF) : (c.setEip v).Narrow :=
  hc.withRegs rfl rfl hc.gprs hv hc.flags

theorem jump (hc : c.Narrow) (v : UInt32) : (c.jump v).Narrow := by
  have hSmall : c.code32 = false := by
    rw [code32, show c.caches.cs = _ from hc.caches .cs]
    rfl
  refine hc.setEip ?_
  rw [hSmall]
  exact wrapOffset_le v

theorem setFlags (hc : c.Narrow) {f : Flags} (hf : f.SameSystem c.regs.flags) :
    (c.setFlags f).Narrow :=
  hc.withRegs rfl rfl hc.gprs hc.eip (hf.trans hc.flags)

/-- Without wide registers an image of 16 bits leaves the system flags alone. -/
theorem loadFlags (hc : c.Narrow) (hModel : c.features.wideRegisters = false) (v : UInt32)
    {w : Width} (hw : w ≠ .dword) : (c.loadFlags v w).Narrow := by
  refine hc.setFlags ?_
  rw [if_neg hw]
  simp only [permittedFlags, hModel]
  exact ⟨rfl, rfl, rfl, rfl, rfl, rfl⟩

theorem loadRealSegment (hc : c.Narrow) {s : SegReg} (hs : s.Fits false) (selector : UInt16) :
    (c.loadRealSegment s selector).Narrow := by
  have hFs : s ≠ .fs := fun h => absurd (hs (.inl h)) (by decide)
  have hGs : s ≠ .gs := fun h => absurd (hs (.inr h)) (by decide)
  refine ⟨hc.real, hc.gdtr, hc.idtr, hc.ldtr, hc.tr, fun t => ?_, ?_, ?_, hc.gprs, hc.eip,
    hc.flags⟩
  · rw [Cpu.loadRealSegment, Registers.selector, Registers.setSelector]
    by_cases ht : t = s
    · rw [ht, SegMap.get_set_self, SegMap.get_set_self]
    · rw [SegMap.get_set_ne _ _ ht, SegMap.get_set_ne _ _ ht]
      exact hc.caches t
  · exact (SegMap.get_set_ne _ _ hFs.symm).trans hc.fs
  · exact (SegMap.get_set_ne _ _ hGs.symm).trans hc.gs

theorem restore (hc : c.Narrow) {s : Snapshot} (hs : s.Fits false) : (c.restore s).Narrow := by
  obtain ⟨hCache, hEsp⟩ := hs.narrow rfl
  have hEip : s.eip ≤ 0xFFFF := by
    refine hs.eip.resolve_left ?_
    rw [hCache]
    exact Bool.false_ne_true
  refine ⟨hc.real, hc.gdtr, hc.idtr, hc.ldtr, hc.tr, fun t => ?_, hc.fs, hc.gs, fun r => ?_, hEip,
    hc.flags⟩
  · cases t with
    | cs => exact hCache
    | es => exact hc.caches .es
    | ss => exact hc.caches .ss
    | ds => exact hc.caches .ds
    | fs => exact hc.caches .fs
    | gs => exact hc.caches .gs
  · cases r with
    | sp => exact hEsp
    | ax => exact hc.gprs .ax
    | cx => exact hc.gprs .cx
    | dx => exact hc.gprs .dx
    | bx => exact hc.gprs .bx
    | bp => exact hc.gprs .bp
    | si => exact hc.gprs .si
    | di => exact hc.gprs .di

/-- A narrow model makes no move that leaves real mode. -/
theorem move {c' : Cpu} (hc : c.Narrow) (hModel : c.features.wideRegisters = false)
    (h : Move false c c') : c'.Narrow := by
  have hProtected {p : Prop} (hp : c.protectedMode = true) : p :=
    absurd (hc.real.symm.trans hp) Bool.false_ne_true
  cases h with
  | activity => exact ⟨hc.real, hc.gdtr, hc.idtr, hc.ldtr, hc.tr, hc.caches, hc.fs, hc.gs, hc.gprs,
      hc.eip, hc.flags⟩
  | stack v => exact hc.setStackPointer v
  | jump v => exact hc.jump v
  | register r v hr => exact hc.writeRegister hr.general (hr.narrow rfl) v
  | status f hf => exact hc.setFlags hf
  | loadFlags v w hw => exact hc.loadFlags hModel v (hw rfl)
  | realSegment s selector hp hs => exact hc.loadRealSegment hs selector
  | realFar selector v =>
    exact (hc.loadRealSegment (s := .cs) (fun h => by simp at h) selector).jump v
  | restore s hs => exact hc.restore hs
  | nullSegment s selector hp => exact hProtected hp
  | tableSegment s selector d hp => exact hProtected hp
  | tableFar selector d v hp => exact hProtected hp
  | handlerFlags masks hw | control n v hw | debug n v hw | table t r hw | selector s v hw =>
    cases hw

end Narrow

/-! ### Moves -/

namespace Move

variable {wide : Bool} {c c' : Cpu}

theorem model_eq (h : Move wide c c') : c'.model = c.model := by
  cases h with
  | table t => cases t <;> rfl
  | selector s => cases s <;> rfl
  | _ => rfl

/-- After a jump the offset fits the code segment, whatever that is. -/
theorem fits_jump (c : Cpu) (v : UInt32) :
    (c.jump v).code32 = true ∨ (c.jump v).regs.eip ≤ 0xFFFF := by
  cases h : c.code32 with
  | true => exact .inl h
  | false =>
    refine .inr ?_
    rw [Cpu.jump, h]
    exact wrapOffset_le v

theorem fits_eip (h : Move wide c c') (hc : c.Sound wide) :
    c'.code32 = true ∨ c'.regs.eip ≤ 0xFFFF := by
  have hWrite (r : Register) (v : UInt32) :
      (c.writeRegister r v).code32 = true ∨ (c.writeRegister r v).regs.eip ≤ 0xFFFF := by
    rw [writeRegister, Registers.eip_write]
    exact hc.eip
  have hCache {s : SegReg} (hs : s ≠ .cs) (selector : UInt16) (d : Descriptor) :
      (c.loadCache s selector d).code32 = true ∨
        (c.loadCache s selector d).regs.eip ≤ 0xFFFF := by
    rw [code32, show (c.loadCache s selector d).caches.cs = c.caches.cs from
      SegMap.get_set_ne _ _ hs.symm]
    exact hc.eip
  cases h with
  | stack v => exact hWrite _ v
  | register r v => exact hWrite r v
  | jump v => exact fits_jump c v
  | realFar selector v => exact fits_jump _ v
  | tableFar selector d v => exact fits_jump _ v
  | realSegment s selector hp hs hCs =>
    by_cases h : s = .cs
    · exact .inr (hc.narrow (hCs h)).eip
    · exact hCache h selector _
  | nullSegment s selector hp hs => exact hCache hs.2 selector _
  | tableSegment s selector d hp hs => exact hCache hs selector _
  | restore s hs => exact hs.eip
  | table t => cases t <;> exact hc.eip
  | selector s => cases s <;> exact hc.eip
  | activity | status | loadFlags | handlerFlags | control | debug => exact hc.eip

/-- **Every move keeps the invariant.** -/
theorem sound (h : Move wide c c') (hc : c.Sound wide) : c'.Sound wide := by
  have hModel : c'.features.wideRegisters = wide := by
    rw [features, h.model_eq]
    exact hc.model
  refine ⟨hModel, h.fits_eip hc, ?_⟩
  rintro rfl
  exact (hc.narrow rfl).move hc.model h

end Move

theorem Moves.sound {wide : Bool} {c c' : Cpu} (h : Moves wide c c') (hc : c.Sound wide) :
    c'.Sound wide :=
  h.induct Move.sound hc

end Cpu

end X86
