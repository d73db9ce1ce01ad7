import X86.Proofs.Machine.Scan

/-!
# Block copies

A repeated move copies a string element by element. Both strings wrap inside their segments, and no
two bytes of the destination meet as long as the block has at most 64 KiB. If it does not meet the
source either, then every element is read as it was at the start.

* `Cpu.targetByte_ne`: the bytes of the destination lie in different places.
* `Machine.Copyable`: the block may be copied.
* `Copying`: memory after some elements; `Copying.next`: one more; `Exec.exists_copying`: a run of
  them.
* `Exec.perform_movs`: **the destination holds what the source held, and no other byte changes.**
-/

namespace X86

open Exec

/-! ### Where the bytes lie -/

namespace Cpu

variable (c : Cpu) (b : Bus) (i : Instruction)

/-- The physical address of byte `n` of element `k` of the source. -/
def sourceByte (k n : Nat) : UInt32 := b.physical (c.byteAddress (c.sourceAt i k) n)

/-- The physical address of byte `n` of element `k` of the destination. -/
def targetByte (k n : Nat) : UInt32 := b.physical (c.byteAddress (c.targetAt i k) n)

theorem byteAddress_of (s : SegReg) (offset : UInt32) (wide : Bool) (n : Nat) :
    c.byteAddress (.of s offset wide) n =
      c.segmentBase s + wrapOffset wide (offset + UInt32.ofNat n) := by
  rw [byteAddress, Location.add]
  simp only [Location.of, wrapOffset_add]

end Cpu

/-- Cells of a width do not meet. -/
theorem Width.cell_ne {w : Width} {k k' n n' : Nat} (hn : n < w.bytes) (hn' : n' < w.bytes)
    (hNe : ¬ (k = k' ∧ n = n')) : k * w.bytes + n ≠ k' * w.bytes + n' := by
  cases w <;> simp only [Width.bytes] at hn hn' ⊢ <;> omega

/-- Up to the wrap of 64 KiB, byte `n` of element `k` lies `k` elements and `n` bytes up from the
start, or `k` elements down and `n` bytes up. -/
theorem toNat_stringOffset_mod (start : UInt32) (f : Flags) (w : Width) {k n : Nat}
    (hk : k * w.bytes ≤ 0x10000) :
    (start + UInt32.ofNat k * stringStep f w + UInt32.ofNat n).toNat % 0x10000 =
      (if f.direction then start.toNat + n + (0x10000 - k * w.bytes)
        else start.toNat + n + k * w.bytes) % 0x10000 := by
  have hUp : (UInt32.ofNat k * UInt32.ofNat w.bytes).toNat = k * w.bytes % 0x100000000 := by
    rw [← UInt32.ofNat_mul, UInt32.toNat_ofNat']
  rw [stringStep]
  split
  · have hDown : (UInt32.ofNat k * (0 - UInt32.ofNat w.bytes)).toNat =
        (0x100000000 - k * w.bytes % 0x100000000) % 0x100000000 := by
      rw [UInt32.zero_sub, UInt32.mul_neg, UInt32.toNat_neg, hUp]
    rw [UInt32.toNat_add, UInt32.toNat_add, hDown, UInt32.toNat_ofNat']
    omega
  · rw [UInt32.toNat_add, UInt32.toNat_add, hUp, UInt32.toNat_ofNat']
    omega

/-- The bytes of up to 64 KiB of elements differ in the low 16 bits of their offsets, also where the
elements go down. -/
theorem stringOffset_mod_ne (start : UInt32) (f : Flags) (w : Width) {count k k' n n' : Nat}
    (hSpan : count * w.bytes ≤ 0x10000) (hk : k < count) (hk' : k' < count) (hn : n < w.bytes)
    (hn' : n' < w.bytes) (hNe : ¬ (k = k' ∧ n = n')) :
    (start + UInt32.ofNat k * stringStep f w + UInt32.ofNat n).toNat % 0x10000 ≠
      (start + UInt32.ofNat k' * stringStep f w + UInt32.ofNat n').toNat % 0x10000 := by
  have hLast {k : Nat} (hk : k < count) : k * w.bytes + w.bytes ≤ 0x10000 :=
    Nat.le_trans (Nat.succ_mul k w.bytes ▸ Nat.mul_le_mul_right w.bytes hk) hSpan
  have hFirst := hLast hk
  have hSecond := hLast hk'
  have hCells := Width.cell_ne hn hn' hNe
  have hCrossed : k' * w.bytes + n ≠ k * w.bytes + n' :=
    Width.cell_ne hn hn' fun h => hNe ⟨h.1.symm, h.2⟩
  rw [toNat_stringOffset_mod start f w (by omega), toNat_stringOffset_mod start f w (by omega)]
  split <;> omega

/-- The bytes of the destination lie in different places, wherever the offsets wrap and whatever the
A20 gate does. -/
theorem Cpu.targetByte_ne (c : Cpu) (b : Bus) (i : Instruction) {count k k' n n' : Nat}
    (hSpan : count * i.size.bytes ≤ 0x10000) (hk : k < count) (hk' : k' < count)
    (hn : n < i.size.bytes) (hn' : n' < i.size.bytes) (hNe : ¬ (k = k' ∧ n = n')) :
    c.targetByte b i k n ≠ c.targetByte b i k' n' := by
  rw [targetByte, targetByte, targetAt, targetAt, byteAddress_of, byteAddress_of]
  exact Bus.physical_ne (toNat_add_wrapOffset_mod_ne
    (stringOffset_mod_ne _ _ _ hSpan hk hk' hn hn' hNe))

namespace Machine

variable (m : Machine) (i : Instruction) (count : Nat)

/-- `count` elements of at most 64 KiB can be copied: the segments allow it, the destination is
installed memory in which no device answers, and it has no byte in common with the source. -/
structure Copyable : Prop where
  span : count * i.size.bytes ≤ 0x10000
  readable : ∀ k < count, m.cpu.mayAccess (m.cpu.sourceAt i k) i.size.bytes .read = true
  writable : ∀ k < count, m.cpu.mayAccess (m.cpu.targetAt i k) i.size.bytes .write = true
  backed : ∀ k < count, ∀ n < i.size.bytes,
    m.bus.Backed (m.cpu.byteAddress (m.cpu.targetAt i k) n)
  disjoint : ∀ k < count, ∀ k' < count, ∀ n < i.size.bytes, ∀ n' < i.size.bytes,
    m.cpu.sourceByte m.bus i k n ≠ m.cpu.targetByte m.bus i k' n'

/-- The physical addresses of the first `count` elements of the destination. -/
def Receives (p : UInt32) : Prop :=
  ∃ k < count, ∃ n < i.size.bytes, p = m.cpu.targetByte m.bus i k n

end Machine

/-! ### Elements -/

namespace Registers

/-- The registers after `k` elements have been counted. -/
def countedBy (op : StringOp) (i : Instruction) (g : Registers) : Nat → Registers
  | 0 => g
  | k + 1 => countedRegs op i (countedBy op i g k)

variable {op : StringOp} {i : Instruction} {k : Nat} {g : Registers}

theorem flags_countedBy : (countedBy op i g k).flags = g.flags := by
  induction k with
  | zero => rfl
  | succ k ih => rw [countedBy, flags_countedRegs, ih]

theorem SameBut.countedBy (op : StringOp) (i : Instruction) (g : Registers) (k : Nat) :
    SameBut (.cx :: op.indexes) i.addr32 g (countedBy op i g k) := by
  induction k with
  | zero => exact .refl g
  | succ k ih =>
    exact ih.trans (.countedRegs op i _)

/-- `k` elements add `k` times their shift to a register. -/
theorem read_countedBy (r : Gpr) :
    (countedBy op i g k).read (.ofGpr i.addr32 r) =
      wrapOffset i.addr32
        (g.read (.ofGpr i.addr32 r) + UInt32.ofNat k * elementShift op i g.flags r) := by
  induction k with
  | zero =>
    rw [show UInt32.ofNat 0 = 0 from rfl, UInt32.zero_mul, UInt32.add_zero, wrapOffset_read]
    rfl
  | succ k ih =>
    rw [countedBy, read_countedRegs, flags_countedBy, ih, wrapOffset_add, ofNat_succ_mul,
      UInt32.add_assoc]

end Registers

/-- The machine after `k` elements have been counted, with the given memory. -/
def Machine.counted (m : Machine) (op : StringOp) (i : Instruction) (k : Nat) (b : Bus) : Machine :=
  { m with
    cpu := { m.cpu with
      regs := .countedBy op i m.cpu.regs k
      cycles := m.cpu.cycles + k }
    bus := b }

theorem background_countedRegs (c : Cpu) (op : StringOp) (i : Instruction) :
    Cpu.background { c with regs := countedRegs op i c.regs } = c.background :=
  (background_write { c with regs := movedIndexes op i c.regs } i.addr32 (.inl rfl) _).trans
    (background_movedIndexes c op i)

theorem Machine.background_counted (m : Machine) (op : StringOp) (i : Instruction) (k : Nat)
    (b : Bus) : (m.counted op i k b).cpu.background = m.cpu.background := by
  induction k with
  | zero => rfl
  | succ k ih => exact (background_countedRegs (m.counted op i k b).cpu op i).trans ih

/-- Memory after `k` elements of a block have been copied. -/
structure Copying (m : Machine) (i : Instruction) (k : Nat) (b : Bus) : Prop where
  elements : ∀ j < k, m.cpu.loadBytes b (m.cpu.targetAt i j) i.size =
    m.cpu.loadBytes m.bus (m.cpu.sourceAt i j) i.size
  elsewhere : Bus.Overwrites (m.Receives i k) m.bus b

namespace Copying

variable {m : Machine} {i : Instruction} {count k : Nat} {b : Bus}

theorem start (m : Machine) (i : Instruction) : Copying m i 0 m.bus :=
  ⟨fun j hj => absurd hj (Nat.not_lt_zero j), .refl _⟩

/-- The destination does not meet the source, so the next element is as it was at the start. -/
theorem loadBytes_sourceAt (h : Copying m i k b) (hCopyable : m.Copyable i count) (hk : k < count) :
    m.cpu.loadBytes b (m.cpu.sourceAt i k) i.size =
      m.cpu.loadBytes m.bus (m.cpu.sourceAt i k) i.size := by
  refine congrArg UInt32.ofNat (joinLittle_congr fun n hn => h.elsewhere.read8_eq ?_)
  rintro ⟨k', hk', n', hn', hSame⟩
  exact hCopyable.disjoint k hk k' (Nat.lt_trans hk' hk) n hn n' hn' hSame

/-- One more element. -/
theorem next (h : Copying m i k b) (hCopyable : m.Copyable i count) (hk : k < count) :
    Copying m i (k + 1) (m.cpu.storeBytes b (m.cpu.targetAt i k)
      (m.cpu.loadBytes m.bus (m.cpu.sourceAt i k) i.size) i.size.bytes) := by
  have hBacked (n : Nat) (hn : n < i.size.bytes) :
      b.Backed (m.cpu.byteAddress (m.cpu.targetAt i k) n) :=
    h.elsewhere.backed (hCopyable.backed k hk n hn)
  have hStored : Bus.Overwrites (fun p => ∃ n < i.size.bytes, p = m.cpu.targetByte m.bus i k n) b
      (m.cpu.storeBytes b (m.cpu.targetAt i k)
        (m.cpu.loadBytes m.bus (m.cpu.sourceAt i k) i.size) i.size.bytes) :=
    Cpu.overwrites_storeBytes _ (fun n hn => (hBacked n hn).unhooked) fun n hn =>
      ⟨n, hn, h.elsewhere.physical_eq _⟩
  refine ⟨fun j hj => ?_, (h.elsewhere.mono ?_).trans (hStored.mono ?_)⟩
  · rcases Nat.lt_succ_iff_lt_or_eq.1 hj with hPrior | rfl
    · -- The elements before lie elsewhere in the destination.
      rw [← h.elements j hPrior]
      refine congrArg UInt32.ofNat (joinLittle_congr fun n hn => hStored.read8_eq ?_)
      rintro ⟨n', hn', hSame⟩
      rw [h.elsewhere.physical_eq] at hSame
      exact m.cpu.targetByte_ne m.bus i hCopyable.span (Nat.lt_trans hPrior hk) hk hn hn'
        (fun hEq => Nat.ne_of_lt hPrior hEq.1) hSame
    · refine (Cpu.loadBytes_eq fun n hn => ?_).trans (m.cpu.truncate_loadBytes m.bus _ _)
      exact Cpu.read8_storeBytes _ hBacked (by cases i.size <;> decide) hn
  · rintro p ⟨j, hj, hByte⟩
    exact ⟨j, Nat.lt_succ_of_lt hj, hByte⟩
  · rintro p hByte
    exact ⟨k, Nat.lt_succ_self k, hByte⟩

end Copying

namespace Exec

variable {m : Machine} {i : Instruction} {count k : Nat} {b : Bus}

/-- The index registers of the machine after `k` elements point to the next one. -/
theorem read_counted (op : StringOp) {r : Gpr} (hr : r ∈ op.indexes) :
    (m.counted op i k b).cpu.regs.read (.ofGpr i.addr32 r) =
      wrapOffset i.addr32 (m.cpu.regs.read (.ofGpr i.addr32 r) +
        UInt32.ofNat k * stringStep m.cpu.regs.flags i.size) := by
  have hNe : r ≠ .cx := by
    rintro rfl
    exact op.cx_not_mem_indexes hr
  refine (Registers.read_countedBy r).trans ?_
  rw [elementShift, if_neg hNe, if_pos hr]

/-- A move copies the next element. -/
theorem countedElement_movs (h : Copying m i k b) (hCopyable : m.Copyable i count)
    (hk : k < count) :
    countedElement .movs i (m.counted .movs i k b) =
      .ok () (m.counted .movs i (k + 1) (m.cpu.storeBytes b (m.cpu.targetAt i k)
        (m.cpu.loadBytes m.bus (m.cpu.sourceAt i k) i.size) i.size.bytes)) := by
  let m₁ := m.counted .movs i k b
  have hSource : m₁.cpu.stringSource i = m.cpu.sourceAt i k := by
    rw [Cpu.stringSource, read_counted .movs (List.mem_cons_self ..), Location.of_wrapOffset,
      Cpu.sourceAt]
  have hTarget : m₁.cpu.stringTarget i = m.cpu.targetAt i k := by
    rw [Cpu.stringTarget, read_counted .movs (List.mem_cons_of_mem _ (List.mem_cons_self ..)),
      Location.of_wrapOffset, Cpu.targetAt]
  have hMay (l : Location) (n : Nat) (kind : AccessKind) :
      m₁.cpu.mayAccess l n kind = m.cpu.mayAccess l n kind :=
    Cpu.mayAccess_of_background (m.background_counted .movs i k b) l n kind
  have hRead : readMem (m.cpu.sourceAt i k) i.size m₁ =
      .ok (m.cpu.loadBytes m.bus (m.cpu.sourceAt i k) i.size) m₁ := by
    rw [readMem_eq, hMay, if_pos (hCopyable.readable k hk), ← h.loadBytes_sourceAt hCopyable hk]
    rfl
  have hWrite (v : UInt32) : writeMem (m.cpu.targetAt i k) i.size v m₁ =
      .ok () (m.counted .movs i k (m.cpu.storeBytes b (m.cpu.targetAt i k) v i.size.bytes)) := by
    rw [writeMem_eq, hMay, if_pos (hCopyable.writable k hk)]
    rfl
  have hWork : stringWork .movs i m₁ =
      .ok () (m.counted .movs i k (m.cpu.storeBytes b (m.cpu.targetAt i k)
        (m.cpu.loadBytes m.bus (m.cpu.sourceAt i k) i.size) i.size.bytes)) := by
    rw [stringWork, bind_of_ok (cpu_apply m₁)]
    dsimp only
    rw [hSource, hTarget, bind_of_ok hRead, hWrite]
  rw [countedElement_eq, bind_of_ok hWork]
  rfl

/-- A run of elements copies them one by one. -/
theorem exists_copying (hCopyable : m.Copyable i count) (hk : k ≤ count) :
    ∃ b, Passes .rep .movs i k m (m.counted .movs i k b) ∧ Copying m i k b := by
  induction k with
  | zero => exact ⟨m.bus, .none m, .start m i⟩
  | succ k ih =>
    obtain ⟨b, hPasses, hCopying⟩ := ih (Nat.le_of_succ_le hk)
    exact ⟨_, hPasses.snoc (countedElement_movs hCopying hCopyable hk) rfl,
      hCopying.next hCopyable hk⟩

end Exec

/-- The machine has copied the whole block: every element of the destination holds what the same
element of the source held, and no other byte of memory has changed. The counter has run out, the
index registers have passed the block, each in the part that the address size shows, and nothing
else has changed but the number of cycles. -/
structure Copied (i : Instruction) (m m' : Machine) : Prop where
  elements : ∀ k < due i m, m'.cpu.loadBytes m'.bus (m.cpu.targetAt i k) i.size =
    m.cpu.loadBytes m.bus (m.cpu.sourceAt i k) i.size
  elsewhere : Bus.Overwrites (m.Receives i (due i m)) m.bus m'.bus
  counter : due i m' = 0
  index : ∀ r ∈ [Gpr.si, .di], m'.cpu.regs.read (.ofGpr i.addr32 r) =
    wrapOffset i.addr32 (m.cpu.regs.read (.ofGpr i.addr32 r) +
      UInt32.ofNat (due i m) * stringStep m.cpu.regs.flags i.size)
  registers : m.cpu.regs.SameBut [.cx, .si, .di] i.addr32 m'.cpu.regs
  flags : m'.cpu.regs.flags = m.cpu.regs.flags
  background : m'.cpu.background = m.cpu.background
  cycles : m'.cpu.cycles = m.cpu.cycles + due i m
  rest : m' = { m with cpu := m'.cpu, bus := m'.bus }

namespace Exec

/-- **A repeated move copies a block**: if the segments allow the elements that the counter asks
for, the destination is in installed memory, and no byte of it belongs to the source, then the
instruction completes and has copied all of them, upwards or downwards. -/
theorem perform_movs {i : Instruction} (hOp : i.operation = .string .movs)
    (hRep : i.rep = some .rep) {m : Machine} (hCopyable : m.Copyable i (due i m)) :
    ∃ m', perform i m = .ok () m' ∧ Copied i m m' := by
  obtain ⟨b, hPasses, hCopying⟩ := exists_copying hCopyable (Nat.le_refl _)
  refine ⟨m.counted .movs i (due i m) b, ?_, ?_⟩
  · rw [perform_eq_repeatElement hOp hRep, hPasses.repeatElement_eq (Nat.le_refl _) rfl,
      Nat.sub_self]
    rfl
  · exact
      { elements := hCopying.elements
        elsewhere := hCopying.elsewhere
        counter := (hPasses.due_eq (Nat.le_refl _)).trans (Nat.sub_self _)
        index := fun r hr => read_counted .movs hr
        registers := .countedBy .movs i m.cpu.regs (due i m)
        flags := Registers.flags_countedBy
        background := hPasses.background_eq
        cycles := rfl
        rest := rfl }

/-- Two words are moved downwards; the second one wraps at 4 GiB in both strings. -/
def moveMachine : Machine :=
  { cpu :=
      { regs :=
          { gprs := { ecx := 2, esi := 1, edi := 1 }
            flags := { direction := true } }
        caches :=
          { SegMap.replicate (Descriptor.realMode 0) with
            es := { base := 4, limit := 0xFFFFFFFF, access := 0x93 }
            ds := { base := 8, limit := 0xFFFFFFFF, access := 0x93 } } }
    bus := { ram := ⟨⟨#[0, 1, 2, 3, 4, 5, 6, 7, 8, 9, 10, 11]⟩⟩ } }

theorem perform_movs_wrapping :
    let i : Instruction :=
      { operation := .string .movs, size := .word, addr32 := true, rep := some .rep, length := 3 }
    moveMachine.Copyable i (due i moveMachine) ∧
      ∃ m', perform i moveMachine = .ok () m' ∧
        m'.cpu.loadBytes m'.bus (.of .es 1 true) .word = 0x0A09 ∧
        m'.cpu.loadBytes m'.bus (.of .es 0xFFFFFFFF true) .word = 0x0807 ∧
        m'.cpu.regs.gprs.ecx = 0 ∧ m'.cpu.regs.gprs.edi = 0xFFFFFFFD := by
  intro i
  have hInstalled : ∀ k < due i moveMachine, ∀ n < i.size.bytes,
      (moveMachine.cpu.targetByte moveMachine.bus i k n).toNat < moveMachine.bus.ram.size := by
    decide +kernel
  have hCopyable : moveMachine.Copyable i (due i moveMachine) :=
    { span := by decide +kernel
      readable := by decide +kernel
      writable := by decide +kernel
      backed := fun k hk n hn => ⟨Bus.windowAt_eq_none rfl _, hInstalled k hk n hn⟩
      disjoint := by decide +kernel }
  obtain ⟨m', hRun, hCopied⟩ := perform_movs (i := i) rfl rfl hCopyable
  have hDue : due i moveMachine = 2 := by decide +kernel
  have hFirst := hCopied.elements 0 (by rw [hDue]; decide)
  have hSecond := hCopied.elements 1 (by rw [hDue]; decide)
  have hTarget : moveMachine.cpu.targetAt i 0 = .of .es 1 true := by decide +kernel
  have hLast : moveMachine.cpu.targetAt i 1 = .of .es 0xFFFFFFFF true := by decide +kernel
  rw [hTarget] at hFirst
  rw [hLast] at hSecond
  refine ⟨hCopyable, m', hRun, ?_, ?_, ?_, ?_⟩
  · exact hFirst.trans (by decide +kernel)
  · exact hSecond.trans (by decide +kernel)
  · exact UInt32.toNat_inj.1 hCopied.counter
  · exact (hCopied.index .di (by decide)).trans (by decide +kernel)

end Exec

end X86
