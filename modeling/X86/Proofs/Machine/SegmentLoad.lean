import X86.Proofs.Machine.FlagPrivilege
import X86.Proofs.Machine.Segments

/-!
# Segment loads in protected mode

A load looks at the selector and at the table entry that it names, and only when nothing is left to
refuse it changes anything: the register, its cache, and one bit in the table. That bit is the only
thing a second load of the selector would change, and it is set.

* `Exec.overwrites_markEntry`, `Exec.read8_markEntry`: the mark in the table.
* `Cpu.tableEntry`, `Cpu.Loadable`: what a selector names, and when it can be loaded.
* `Machine.Loads`: what a load does.
* `Exec.loads_of_loadable`, `Machine.Loads.loadable`: a selector that can be loaded can be loaded
  again.
* `Exec.loadSegment_checked`: **a load is refused without a change, or it does what it has to, and
  loading the selector again changes nothing.**
-/

namespace X86

/-! ### Table entries -/

namespace Descriptor

/-- An entry is eight bytes. -/
theorem ofBytes_congr {byte byte' : Nat → UInt8} (h : ∀ i < 8, byte i = byte' i) :
    ofBytes byte = ofBytes byte' := by
  rw [ofBytes, ofBytes, h 0 (by decide), h 1 (by decide), h 2 (by decide), h 3 (by decide),
    h 4 (by decide), h 5 (by decide), h 6 (by decide), h 7 (by decide)]

theorem access_or_one {d : Descriptor} (h : d.isAccessed = true) : d.access ||| 1 = d.access := by
  rw [← UInt8.toNat_inj, UInt8.toNat_or]
  refine Nat.eq_of_testBit_eq fun n => ?_
  rw [Nat.testBit_or]
  cases n with
  | zero =>
    rw [show d.access.toNat.testBit 0 = true from h]
    rfl
  | succ n => rw [UInt8.toNat_one, Nat.testBit_succ 1, Nat.zero_testBit, Bool.or_false]

theorem isAccessed_markAccessed (d : Descriptor) : d.markAccessed.isAccessed = true := by
  rw [isAccessed, accessBit, markAccessed, UInt8.toNat_or, Nat.testBit_or]
  exact Bool.or_true _

theorem markAccessed_of_isAccessed {d : Descriptor} (h : d.isAccessed = true) :
    d.markAccessed = d := by
  rw [markAccessed, access_or_one h]

end Descriptor

/-! ### The mark in the table -/

namespace Exec

variable {m : Machine} {entry : UInt32} {d : Descriptor}

theorem markEntry_of_isAccessed (h : d.isAccessed = true) (m : Machine) (entry : UInt32) :
    markEntry m entry d = m := if_pos h

theorem overwrites_markEntry (h : m.bus.window = none) (entry : UInt32) (d : Descriptor) :
    Bus.Overwrites (· = m.bus.physical (entry + 5)) m.bus (markEntry m entry d).bus := by
  rw [markEntry]
  split
  · exact .refl m.bus
  · exact Bus.overwrites_write8 (Bus.windowAt_eq_none h _) _

/-- Marking an entry sets a bit of its access byte. -/
theorem read8_markEntry (h : m.bus.window = none)
    (hd : Descriptor.ofBytes (fun i => m.bus.read8 (entry + UInt32.ofNat i)) = d) :
    (markEntry m entry d).bus.read8 (entry + 5) = m.bus.read8 (entry + 5) ||| 1 := by
  have hAccess : d.access = m.bus.read8 (entry + 5) := by
    rw [← hd]
    rfl
  rw [markEntry]
  split
  · rename_i hAccessed
    rw [← hAccess, Descriptor.access_or_one hAccessed]
  · rename_i hFresh
    rw [Bus.read8_write8 h]
    split
    · rw [← hAccess]
      rfl
    · rename_i hOutside
      -- what is not installed reads as marked
      have hFloats : m.bus.read8 (entry + 5) = 0xFF := by
        rw [Bus.read8_eq h, Ram.read, dif_neg]
        exact fun hIn => hOutside ⟨rfl, hIn⟩
      rw [hFloats]
      rfl

end Exec

/-! ### Selectors -/

namespace Cpu

variable {c c' : Cpu} {b : Bus} {s : SegReg} {selector : UInt16}

/-- There are four null selectors, one for each privilege level. -/
theorem selectorIndex_eq_zero : selectorIndex selector = 0 ↔ selector < 4 := by
  have hMask : ∀ n < 16, 2 ≤ n → Nat.testBit 0xFFFC n = true := by decide
  constructor
  · intro h
    refine UInt16.lt_iff_toNat_lt.2 (Nat.lt_pow_two_of_testBit (n := 2) _ fun n hn => ?_)
    by_cases hTop : n < 16
    · have hBit : (selectorIndex selector).toNat.testBit n = false := by
        rw [h]
        exact Nat.zero_testBit n
      rw [selectorIndex, UInt16.toNat_and, Nat.testBit_and] at hBit
      rwa [show (UInt16.toNat 0xFFFC).testBit n = true from hMask n hTop hn, Bool.and_true] at hBit
    · exact Nat.testBit_lt_two_pow
        (Nat.lt_of_lt_of_le selector.toNat_lt (Nat.pow_le_pow_right (by decide) (by omega)))
  · intro h
    have hSmall : selector.toNat < 4 := UInt16.lt_iff_toNat_lt.1 h
    obtain h | h | h | h : selector = 0 ∨ selector = 1 ∨ selector = 2 ∨ selector = 3 := by
      simp only [← UInt16.toNat_inj]
      change selector.toNat = 0 ∨ selector.toNat = 1 ∨ selector.toNat = 2 ∨ selector.toNat = 3
      omega
    all_goals rw [h]; rfl

/-- The linear address of the entry of the global table that a selector names. -/
def entryAddress (c : Cpu) (selector : UInt16) : UInt32 := c.gdtr.base + selector.toUInt32

/-- The descriptor that a selector names. -/
def tableEntry (c : Cpu) (b : Bus) (selector : UInt16) : Descriptor :=
  Descriptor.ofBytes fun i => b.read8 (c.entryAddress selector + UInt32.ofNat i)

/-- A selector that is not null can be loaded: it names an entry of the global table, which is
present and of a kind that suits the register. -/
structure Loadable (c : Cpu) (b : Bus) (s : SegReg) (selector : UInt16) : Prop where
  aligned : selector.toNat % 8 = 0
  inside : selector.toNat + 7 ≤ c.gdtr.limit.toNat
  suits : (c.tableEntry b selector).suits s = true
  present : (c.tableEntry b selector).isPresent = true

theorem lookupSegment_iff {entry : UInt32} {d : Descriptor} :
    c.lookupSegment b s selector = .ok (entry, d) ↔
      c.Loadable b s selector ∧ entry = c.entryAddress selector ∧ d = c.tableEntry b selector := by
  have hInside (entry : UInt32) : c.gdtr.entryAddress? selector.toUInt32 = some entry ↔
      selector.toNat + 7 ≤ c.gdtr.limit.toNat ∧ entry = c.entryAddress selector := by
    rw [TableRegister.entryAddress?, UInt16.toNat_toUInt32, entryAddress]
    by_cases hLimit : selector.toNat + 7 > c.gdtr.limit.toNat
    · simp only [if_pos hLimit, reduceCtorEq, Nat.not_le.2 hLimit, false_and]
    · simp only [if_neg hLimit, Option.some.injEq, Nat.not_lt.1 hLimit, true_and]
      exact eq_comm
  rw [Exec.lookupSegment_eq_ok, hInside, and_seven_eq_zero]
  constructor
  · rintro ⟨hAligned, ⟨hLimit, rfl⟩, rfl, hSuits, hPresent⟩
    exact ⟨⟨hAligned, hLimit, hSuits, hPresent⟩, rfl, rfl⟩
  · rintro ⟨⟨hAligned, hLimit, hSuits, hPresent⟩, rfl, rfl⟩
    exact ⟨hAligned, ⟨hLimit, rfl⟩, rfl, hSuits, hPresent⟩

/-- A segment that is loaded twice is loaded once. -/
theorem loadCache_loadCache (c : Cpu) (s : SegReg) (selector : UInt16) (d : Descriptor) :
    (c.loadCache s selector d).loadCache s selector d = c.loadCache s selector d := by
  cases s <;> rfl

end Cpu

/-! ### What a load does -/

/-- The machine has loaded the selector of a table entry: the register has it, the cache has the
descriptor with the mark, and the mark is all that is new in memory. -/
structure Machine.Loads (m : Machine) (s : SegReg) (selector : UInt16) (m' : Machine) : Prop where
  rest : m' = { m with cpu := m'.cpu, bus := m'.bus, log := m'.log }
  cpu : m'.cpu = m.cpu.loadCache s selector (m.cpu.tableEntry m.bus selector).markAccessed
  memory : Bus.Overwrites (· = m.bus.physical (m.cpu.entryAddress selector + 5)) m.bus m'.bus
  mark : m'.bus.read8 (m.cpu.entryAddress selector + 5) =
    m.bus.read8 (m.cpu.entryAddress selector + 5) ||| 1
  kept : (m.cpu.tableEntry m.bus selector).isAccessed = true → m'.bus = m.bus

namespace Machine.Loads

variable {m m' : Machine} {s : SegReg} {selector : UInt16}

theorem selector_eq (h : m.Loads s selector m') : m'.cpu.regs.selector s = selector := by
  rw [h.cpu]
  exact SegMap.get_set_self _ s selector

theorem entryAddress_eq (h : m.Loads s selector m') :
    m'.cpu.entryAddress selector = m.cpu.entryAddress selector := by
  rw [h.cpu]
  rfl

/-- The entry has the mark and is otherwise what it was: its bytes do not meet. -/
theorem tableEntry_eq (h : m.Loads s selector m') :
    m'.cpu.tableEntry m'.bus selector = (m.cpu.tableEntry m.bus selector).markAccessed := by
  have hOther {i : Nat} (hi : i < 8) (hNe : i ≠ 5) :
      m'.bus.read8 (m.cpu.entryAddress selector + UInt32.ofNat i) =
        m.bus.read8 (m.cpu.entryAddress selector + UInt32.ofNat i) := by
    refine h.memory.read8_eq (Bus.physical_ne ?_)
    have hFive : UInt32.toNat 5 = 5 := rfl
    rw [UInt32.toNat_add, UInt32.toNat_add, UInt32.toNat_ofNat', hFive]
    omega
  have hBytes : ∀ i < 8, m'.bus.read8 (m.cpu.entryAddress selector + UInt32.ofNat i) =
      if i = 5 then m.bus.read8 (m.cpu.entryAddress selector + 5) ||| 1
      else m.bus.read8 (m.cpu.entryAddress selector + UInt32.ofNat i) := by
    intro i hi
    by_cases hFive : i = 5
    · rw [if_pos hFive, hFive]
      exact h.mark
    · rw [if_neg hFive, hOther hi hFive]
  rw [Cpu.tableEntry, h.entryAddress_eq, Descriptor.ofBytes_congr hBytes]
  rfl

/-- What was loaded can be loaded again. -/
theorem loadable (h : m.Loads s selector m') (hCan : m.cpu.Loadable m.bus s selector) :
    m'.cpu.Loadable m'.bus s selector where
  aligned := hCan.aligned
  inside := by
    rw [h.cpu]
    exact hCan.inside
  suits := by
    rw [h.tableEntry_eq, Descriptor.suits_markAccessed, hCan.suits]
  present := by
    rw [h.tableEntry_eq, Descriptor.isPresent_markAccessed, hCan.present]

end Machine.Loads

namespace Exec

variable {m m' : Machine} {s : SegReg} {selector : UInt16}

theorem loadSegment_of_lookup {entry : UInt32} {d : Descriptor} (hp : m.cpu.protectedMode = true)
    (hNull : 4 ≤ selector) (h : m.cpu.lookupSegment m.bus s selector = .ok (entry, d)) :
    loadSegment s selector m = loadEntry s selector entry d m := by
  have hIndex : Cpu.selectorIndex selector ≠ 0 := by
    intro hZero
    exact absurd (Cpu.selectorIndex_eq_zero.1 hZero) (UInt16.not_lt.2 hNull)
  simp [loadSegment, bind_apply, hp, hIndex, h, check_ok]

/-- What can be loaded is loaded. -/
theorem loads_of_loadable (hp : m.cpu.protectedMode = true) (hWindow : m.bus.window = none)
    (hNull : 4 ≤ selector) (h : m.cpu.Loadable m.bus s selector) :
    ∃ m', loadSegment s selector m = .ok () m' ∧ m.Loads s selector m' := by
  have hLookup := Cpu.lookupSegment_iff.2 ⟨h, rfl, rfl⟩
  have hRun := (loadSegment_of_lookup hp hNull hLookup).trans (loadEntry_apply ..)
  refine ⟨_, hRun, ?_, ?_, overwrites_markEntry hWindow _ _, read8_markEntry hWindow rfl, ?_⟩
  · rw [markEntry]
    split <;> rfl
  · change (markEntry m _ _).cpu.loadCache s selector _ = _
    rw [cpu_markEntry]
  · intro hAccessed
    change (markEntry m _ _).bus = m.bus
    rw [markEntry_of_isAccessed hAccessed]

/-- Only what can be loaded is loaded. -/
theorem loadable_of_loadSegment (hp : m.cpu.protectedMode = true) (hNull : 4 ≤ selector)
    (h : loadSegment s selector m = .ok () m') : m.cpu.Loadable m.bus s selector := by
  rcases loadSegment_cases s selector m with
    ⟨hReal, -⟩ | ⟨-, -, hZero, -⟩ | ⟨entry, d, -, hLookup, -⟩ | ⟨e, -, hError⟩
  · cases hp.symm.trans hReal
  · exact absurd (Cpu.selectorIndex_eq_zero.1 hZero) (UInt16.not_lt.2 hNull)
  · exact (Cpu.lookupSegment_iff.1 hLookup).1
  · cases hError.symm.trans h

/-- The second load of a selector changes neither the processor nor memory. -/
theorem loadSegment_again (hp : m.cpu.protectedMode = true) (hWindow : m.bus.window = none)
    (hNull : 4 ≤ selector) (hCan : m.cpu.Loadable m.bus s selector)
    (h : m.Loads s selector m') :
    ∃ m'', loadSegment s selector m' = .ok () m'' ∧ m''.cpu = m'.cpu ∧ m''.bus = m'.bus := by
  have hMode : m'.cpu.protectedMode = true := by
    rw [h.cpu]
    exact hp
  have hSameWindow : m'.bus.window = none := h.memory.window_eq.trans hWindow
  obtain ⟨m'', hRun, hLoads⟩ := loads_of_loadable hMode hSameWindow hNull (h.loadable hCan)
  have hMarked := (m.cpu.tableEntry m.bus selector).isAccessed_markAccessed
  refine ⟨m'', hRun, ?_, ?_⟩
  · rw [hLoads.cpu, h.tableEntry_eq, Descriptor.markAccessed_of_isAccessed hMarked, h.cpu,
      Cpu.loadCache_loadCache]
  · refine hLoads.kept ?_
    rw [h.tableEntry_eq, hMarked]

/-- **Segment loads in protected mode are checked, atomic and idempotent.** A load that is refused
changes nothing. A null selector is loaded without a look at the table, but not into CS or SS. Any
other selector is loaded if its entry can be; the register then has it, with the descriptor of the
entry, and the mark in the entry is all that is new in memory. Loading it again changes nothing. -/
theorem loadSegment_checked (hp : m.cpu.protectedMode = true) (hWindow : m.bus.window = none)
    (s : SegReg) (selector : UInt16) :
    (∀ stop m', loadSegment s selector m = .error stop m' → m' = m) ∧
      (selector < 4 → loadSegment s selector m =
        if s = .ss ∨ s = .cs then .error (.fault (.generalProtection 0)) m
        else .ok () (m.withCpu (·.loadCache s selector {}))) ∧
      (4 ≤ selector →
        ((∃ m', loadSegment s selector m = .ok () m') ↔ m.cpu.Loadable m.bus s selector) ∧
        ∀ m', loadSegment s selector m = .ok () m' → m.Loads s selector m' ∧
          ∃ m'', loadSegment s selector m' = .ok () m'' ∧ m''.cpu = m'.cpu ∧ m''.bus = m'.bus) := by
  refine ⟨Atomic.loadSegment s selector m, ?_, ?_⟩
  · intro hNull
    have hIndex := Cpu.selectorIndex_eq_zero.2 hNull
    by_cases hs : s = .ss ∨ s = .cs
    · simp [loadSegment, bind_apply, hp, hIndex, hs]
    · simp [loadSegment, bind_apply, hp, hIndex, hs]
  · intro hNull
    refine ⟨?_, ?_⟩
    · constructor
      · rintro ⟨m', h⟩
        exact loadable_of_loadSegment hp hNull h
      · intro hCan
        obtain ⟨m', h, -⟩ := loads_of_loadable hp hWindow hNull hCan
        exact ⟨m', h⟩
    · intro m' h
      have hCan := loadable_of_loadSegment hp hNull h
      obtain ⟨m₁, hRun, hLoads⟩ := loads_of_loadable hp hWindow hNull hCan
      cases hRun.symm.trans h
      exact ⟨hLoads, loadSegment_again hp hWindow hNull hCan hLoads⟩

/-- A data segment that nothing has loaded before. -/
theorem loadSegment_checked_fresh :
    let m : Machine :=
      { cpu :=
          { model := .i80386
            regs := ({} : Registers).writeControl .zero Cpu.protectionBit
            gdtr := { base := 0, limit := 15 } }
        bus := { ram := ⟨⟨#[0, 0, 0, 0, 0, 0, 0, 0, 0xFF, 0xFF, 0, 0, 0, 0x92, 0, 0]⟩⟩ } }
    m.cpu.protectedMode = true ∧ m.bus.window = none ∧
      ∃ m' m'', loadSegment .ds 8 m = .ok () m' ∧ m'.cpu.regs.selector .ds = 8 ∧
        m'.cpu.caches.ds = { limit := 0xFFFF, access := 0x93 } ∧ m'.bus.read8 13 = 0x93 ∧
        loadSegment .ds 8 m' = .ok () m'' ∧ m''.cpu = m'.cpu ∧ m''.bus = m'.bus := by
  intro m
  have hp : m.cpu.protectedMode = true := by decide +kernel
  obtain ⟨-, -, hTable⟩ := loadSegment_checked (m := m) hp rfl .ds 8
  obtain ⟨hIff, hLoads⟩ := hTable (by decide)
  have hCan : m.cpu.Loadable m.bus .ds 8 :=
    ⟨by decide, by decide, by decide +kernel, by decide +kernel⟩
  obtain ⟨m', hRun⟩ := hIff.2 hCan
  obtain ⟨hLoad, m'', hAgain, hCpu, hBus⟩ := hLoads m' hRun
  have hEntry : (m.cpu.tableEntry m.bus 8).markAccessed = { limit := 0xFFFF, access := 0x93 } := by
    decide +kernel
  refine ⟨hp, rfl, m', m'', hRun, hLoad.selector_eq, ?_, hLoad.mark.trans (by decide +kernel),
    hAgain, hCpu, hBus⟩
  rw [hLoad.cpu, hEntry]
  rfl

end Exec

end X86
