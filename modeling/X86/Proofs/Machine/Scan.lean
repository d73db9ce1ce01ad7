import X86.Proofs.Alu.Compare
import X86.Proofs.Machine.Repeat

/-!
# Scans of strings

A repeated comparison goes through two strings element by element, or through one string with the
accumulator. Nothing that it changes is looked at again but the index registers and the counter, so
what it compares can be read off the machine that it starts from, and the first comparison that ends
the repeat says where it stops.

* `Machine.leftOperand`, `Machine.rightOperand`: what the comparisons look at.
* `Machine.Permits`, `Machine.Decides`: a comparison is allowed, and it ends the repeat.
* `Registers.SameBut`: what the index registers and the counter leave alone.
* `Scanned`: the machine after some comparisons; `Scanned.next`: one more.
* `Exec.exists_passes`: a run of comparisons of which none ends the repeat.
* `Exec.perform_scan`: **a scan stops behind the first comparison that decides it.**
-/

namespace X86

open Exec

/-! ### What is compared -/

/-- The operation compares two elements, or an element with the accumulator. -/
def StringOp.compares : StringOp → Bool
  | .cmps | .scas => true
  | .movs | .lods | .stos | .ins | .outs => false

/-- Where element `k` of the source lies. -/
def Cpu.sourceAt (c : Cpu) (i : Instruction) (k : Nat) : Location :=
  .of (i.segment.getD .ds)
    (c.regs.read (.ofGpr i.addr32 .si) + UInt32.ofNat k * stringStep c.regs.flags i.size) i.addr32

/-- Where element `k` of the destination lies. -/
def Cpu.targetAt (c : Cpu) (i : Instruction) (k : Nat) : Location :=
  .of .es (c.regs.read (.ofGpr i.addr32 .di) + UInt32.ofNat k * stringStep c.regs.flags i.size)
    i.addr32

namespace Machine

variable (m : Machine) (mode : RepeatMode) (op : StringOp) (i : Instruction) (k : Nat)

/-- The left operand of comparison `k`: an element of the source, or the accumulator. -/
def leftOperand : UInt32 :=
  if op = .cmps then m.cpu.loadBytes m.bus (m.cpu.sourceAt i k) i.size
  else m.cpu.regs.read (.accumulator i.size)

/-- The right operand of comparison `k`: an element of the destination. -/
def rightOperand : UInt32 := m.cpu.loadBytes m.bus (m.cpu.targetAt i k) i.size

/-- The segments allow comparison `k`. -/
structure Permits : Prop where
  source : op = .cmps → m.cpu.mayAccess (m.cpu.sourceAt i k) i.size.bytes .read = true
  target : m.cpu.mayAccess (m.cpu.targetAt i k) i.size.bytes .read = true

/-- Comparison `k` ends the repeat: REPE ends at a difference, REPNE at a match. -/
def Decides : Prop :=
  match mode with
  | .rep => False
  | .repe => m.leftOperand op i k ≠ m.rightOperand i k
  | .repne => m.leftOperand op i k = m.rightOperand i k

/-- The flags after some comparisons are those of the last one. -/
def scanFlags : Nat → Flags
  | 0 => m.cpu.regs.flags
  | k + 1 => (Alu.sub i.size (m.leftOperand op i k) (m.rightOperand i k) m.cpu.regs.flags).2

end Machine

namespace Machine

variable {m : Machine} {mode : RepeatMode} {op : StringOp} {i : Instruction} {k : Nat}

theorem truncate_leftOperand : i.size.truncate (m.leftOperand op i k) = m.leftOperand op i k := by
  rw [leftOperand]
  by_cases hSource : op = .cmps
  · rw [if_pos hSource, Cpu.truncate_loadBytes]
  · rw [if_neg hSource, Registers.truncate_accumulator]

/-- The zero flag of a comparison says whether it ends the repeat. -/
theorem repeatEnds_scanFlags :
    repeatEnds mode (m.scanFlags op i (k + 1)).zero = true ↔ m.Decides mode op i k := by
  have hZero : (m.scanFlags op i (k + 1)).zero = true ↔
      m.leftOperand op i k = m.rightOperand i k := by
    have hEqual : (m.scanFlags op i (k + 1)).zero = true ↔
        i.size.truncate (m.leftOperand op i k) = i.size.truncate (m.rightOperand i k) :=
      Alu.e_compare i.size (m.leftOperand op i k) (m.rightOperand i k) m.cpu.regs.flags
    have hRight : i.size.truncate (m.rightOperand i k) = m.rightOperand i k :=
      Cpu.truncate_loadBytes ..
    rw [hEqual, truncate_leftOperand, hRight]
  cases mode with
  | rep => exact ⟨fun h => absurd h Bool.false_ne_true, False.elim⟩
  | repe =>
    rw [repeatEnds, Bool.not_eq_true', ← Bool.not_eq_true, hZero]
    exact Iff.rfl
  | repne => exact hZero

end Machine

/-! ### What a scan leaves alone -/

/-- The register files agree but for these registers, of which only the low halves differ where
offsets are narrow. -/
structure Registers.SameBut (l : List Gpr) (wide : Bool) (g g' : Registers) : Prop where
  others : ∀ r ∉ l, g'.gprs.get r = g.gprs.get r
  high : wide = false → ∀ r n, 16 ≤ n → n < 32 →
    bitAt (g'.gprs.get r) n = bitAt (g.gprs.get r) n

namespace Registers.SameBut

variable {l : List Gpr} {wide : Bool} {g g₁ g' : Registers}

theorem refl (g : Registers) : SameBut l wide g g := ⟨fun _ _ => rfl, fun _ _ _ _ _ => rfl⟩

theorem trans (h : SameBut l wide g g₁) (h' : SameBut l wide g₁ g') : SameBut l wide g g' where
  others r hr := (h'.others r hr).trans (h.others r hr)
  high hNarrow r n hn hTop := (h'.high hNarrow r n hn hTop).trans (h.high hNarrow r n hn hTop)

theorem write {r : Gpr} (hr : r ∈ l) (g : Registers) (v : UInt32) :
    SameBut l wide g (g.write (.ofGpr wide r) v) where
  others s hs := by
    have hNe : s ≠ r := by
      rintro rfl
      exact hs hr
    cases wide with
    | true => exact g.gprs.get_set_ne v hNe
    | false => exact g.gprs.get_set_ne _ hNe
  high hNarrow s n hn hTop := by
    subst hNarrow
    by_cases hSame : s = r
    · subst hSame
      change bitAt ((g.gprs.set s (replaceWord (g.gprs.get s) v.toUInt16)).get s) n = _
      rw [Gprs.get_set_self, bitAt_replaceWord _ _ hTop, if_neg (by omega)]
    · exact congrArg (bitAt · n) (g.gprs.get_set_ne _ hSame)

theorem foldl_movedIndex (i : Instruction) {moved : List Gpr} (hMoved : ∀ r ∈ moved, r ∈ l)
    (g : Registers) : SameBut l i.addr32 g (moved.foldl (movedIndex i) g) := by
  induction moved generalizing g with
  | nil => exact .refl g
  | cons r rest ih =>
    have hFirst : SameBut l i.addr32 g (movedIndex i g r) :=
      .write (hMoved r (List.mem_cons_self ..)) g _
    exact hFirst.trans (ih (fun s hs => hMoved s (List.mem_cons_of_mem r hs)) _)

theorem countedRegs (op : StringOp) (i : Instruction) (g : Registers) :
    SameBut (.cx :: op.indexes) i.addr32 g (countedRegs op i g) := by
  have hMoved : SameBut (.cx :: op.indexes) i.addr32 g (movedIndexes op i g) :=
    foldl_movedIndex i (fun r hr => List.mem_cons_of_mem .cx hr) g
  exact hMoved.trans (.write (List.mem_cons_self ..) _ _)

end Registers.SameBut

namespace Exec

theorem flags_countedRegs (op : StringOp) (i : Instruction) (g : Registers) :
    (countedRegs op i g).flags = g.flags := by
  have hMoved (l : List Gpr) (g : Registers) : (l.foldl (movedIndex i) g).flags = g.flags := by
    induction l generalizing g with
    | nil => rfl
    | cons r l ih => rw [List.foldl_cons, ih, movedIndex, Registers.flags_write]
  rw [countedRegs, Registers.flags_write]
  exact hMoved op.indexes g

end Exec

/-! ### Comparisons -/

/-- The machine has made `k` comparisons: the counter has gone down and the index registers have
moved by as many elements, each in the part that the address size shows, the flags are those of the
last comparison, and nothing else has changed but the number of cycles. -/
structure Scanned (op : StringOp) (i : Instruction) (m : Machine) (k : Nat) (m' : Machine) :
    Prop where
  rest : m' = { m with cpu := m'.cpu }
  background : m'.cpu.background = m.cpu.background
  registers : m.cpu.regs.SameBut (.cx :: op.indexes) i.addr32 m'.cpu.regs
  counter : due i m' = due i m - k
  index : ∀ r ∈ op.indexes, m'.cpu.regs.read (.ofGpr i.addr32 r) =
    wrapOffset i.addr32 (m.cpu.regs.read (.ofGpr i.addr32 r) +
      UInt32.ofNat k * stringStep m.cpu.regs.flags i.size)
  flags : m'.cpu.regs.flags = m.scanFlags op i k
  cycles : m'.cpu.cycles = m.cpu.cycles + k

theorem Location.of_wrapOffset (s : SegReg) (offset : UInt32) (wide : Bool) :
    Location.of s (wrapOffset wide offset) wide = .of s offset wide := by
  simp only [of, wrapOffset_wrapOffset]

namespace Scanned

variable {m m' : Machine} {op : StringOp} {i : Instruction} {k : Nat}

theorem start (m : Machine) : Scanned op i m 0 m where
  rest := rfl
  background := rfl
  registers := .refl _
  counter := rfl
  index r _ := by
    rw [show UInt32.ofNat 0 = 0 from rfl, UInt32.zero_mul, UInt32.add_zero,
      Registers.wrapOffset_read]
  flags := rfl
  cycles := rfl

theorem bus_eq (h : Scanned op i m k m') : m'.bus = m.bus := by
  rw [h.rest]

theorem accumulator_eq (h : Scanned op i m k m') (w : Width) :
    m'.cpu.regs.read (.accumulator w) = m.cpu.regs.read (.accumulator w) := by
  have hSame : m'.cpu.regs.gprs.get .ax = m.cpu.regs.gprs.get .ax := by
    refine h.registers.others .ax ?_
    cases op <;> decide
  cases w with
  | byte => exact congrArg (fun v => v.toUInt8.toUInt32) hSame
  | word => exact congrArg (fun v => v.toUInt16.toUInt32) hSame
  | dword => exact hSame

theorem mayAccess_eq (h : Scanned op i m k m') (l : Location) (n : Nat) (kind : AccessKind) :
    m'.cpu.mayAccess l n kind = m.cpu.mayAccess l n kind :=
  Cpu.mayAccess_of_background h.background l n kind

theorem loadBytes_eq (h : Scanned op i m k m') (l : Location) (w : Width) :
    m'.cpu.loadBytes m'.bus l w = m.cpu.loadBytes m.bus l w := by
  rw [h.bus_eq]
  exact (congrArg (Cpu.loadBytes · m.bus l w) h.background :
    m'.cpu.background.loadBytes m.bus l w = m.cpu.background.loadBytes m.bus l w)

/-- The index register points to the next element. -/
theorem stringSource_eq (h : Scanned op i m k m') (hSource : op = .cmps) :
    m'.cpu.stringSource i = m.cpu.sourceAt i k := by
  have hIndex := h.index .si (by rw [hSource]; decide)
  rw [Cpu.stringSource, hIndex, Location.of_wrapOffset, Cpu.sourceAt]

theorem stringTarget_eq (h : Scanned op i m k m') (hCompares : op.compares = true) :
    m'.cpu.stringTarget i = m.cpu.targetAt i k := by
  have hMoves : Gpr.di ∈ op.indexes := by
    cases op with
    | cmps | scas => decide
    | movs | lods | stos | ins | outs => cases hCompares
  rw [Cpu.stringTarget, h.index .di hMoves, Location.of_wrapOffset, Cpu.targetAt]

/-- A comparison replaces all flags that the one before it has set. -/
theorem sub_flags (h : Scanned op i m k m') (a b : UInt32) :
    (Alu.sub i.size a b m'.cpu.regs.flags).2 = (Alu.sub i.size a b m.cpu.regs.flags).2 := by
  rw [h.flags]
  cases k with
  | zero => rfl
  | succ k => rfl

/-- The next element is the next comparison. -/
theorem stringWork_eq (h : Scanned op i m k m') (hCompares : op.compares = true)
    (hPermits : m.Permits op i k) :
    stringWork op i m' = .ok () (m'.withCpu (·.setFlags (m.scanFlags op i (k + 1)))) := by
  have hTarget : readMem (m'.cpu.stringTarget i) i.size m' = .ok (m.rightOperand i k) m' := by
    rw [readMem_eq, h.stringTarget_eq hCompares, h.mayAccess_eq, if_pos hPermits.target,
      h.loadBytes_eq]
    rfl
  have hCompare : compareElements i.size (m.leftOperand op i k) (m.rightOperand i k) m' =
      .ok () (m'.withCpu (·.setFlags (m.scanFlags op i (k + 1)))) := by
    rw [compareElements, bind_of_ok (flags_apply m'), h.sub_flags]
    rfl
  cases op with
  | cmps =>
    have hSource : readMem (m'.cpu.stringSource i) i.size m' =
        .ok (m.leftOperand .cmps i k) m' := by
      rw [readMem_eq, h.stringSource_eq rfl, h.mayAccess_eq, if_pos (hPermits.source rfl),
        h.loadBytes_eq]
      rfl
    rw [stringWork, bind_of_ok (cpu_apply m')]
    dsimp only
    rw [bind_of_ok hSource, bind_of_ok hTarget, hCompare]
  | scas =>
    have hLeft : m'.cpu.regs.read (.accumulator i.size) = m.leftOperand .scas i k :=
      h.accumulator_eq i.size
    rw [stringWork, bind_of_ok (cpu_apply m')]
    dsimp only
    rw [bind_of_ok hTarget, hLeft, hCompare]
  | movs | lods | stos | ins | outs => cases hCompares

/-- One more comparison. -/
theorem next (h : Scanned op i m k m') (hCompares : op.compares = true) (hk : k < due i m)
    (hPermits : m.Permits op i k) :
    ∃ m₁, countedElement op i m' = .ok () m₁ ∧ Scanned op i m (k + 1) m₁ := by
  let c := m'.cpu.setFlags (m.scanFlags op i (k + 1))
  let m₁ := m'.withCpu fun _ => { c with regs := countedRegs op i c.regs, cycles := c.cycles + 1 }
  have hElement : countedElement op i m' = .ok () m₁ := by
    rw [countedElement_eq, bind_of_ok (h.stringWork_eq hCompares hPermits)]
    rfl
  have hDirection : m'.cpu.regs.flags.direction = m.cpu.regs.flags.direction :=
    Cpu.direction_of_background h.background
  refine ⟨m₁, hElement, ?_, ?_, ?_, ?_, ?_, ?_, ?_⟩
  · have hRest : m₁ = { m' with cpu := m₁.cpu } := rfl
    rw [hRest, h.rest]
  · rw [← h.background, ← after_of_ok hElement]
    exact (steady_countedElement op i).part_eq m'
  · have hFlags : m'.cpu.regs.SameBut (.cx :: op.indexes) i.addr32 c.regs :=
      ⟨fun _ _ => rfl, fun _ _ _ _ _ => rfl⟩
    exact h.registers.trans (hFlags.trans (.countedRegs op i c.regs))
  · have hLeft : due i m' = due i m - (k + 1) + 1 := by
      rw [h.counter]
      omega
    exact due_countedElement hElement hLeft
  · intro r hr
    have hNe : r ≠ .ax ∧ r ≠ .cx := by
      refine ⟨?_, ?_⟩ <;> rintro rfl <;> revert hr <;> cases op <;> decide
    have hShift : elementShift op i m'.cpu.regs.flags r = stringStep m.cpu.regs.flags i.size := by
      rw [elementShift, if_neg hNe.2, if_pos hr, stringStep, hDirection, stringStep]
    rw [read_countedElement hElement hNe.1, hShift, h.index r hr, wrapOffset_add,
      ofNat_succ_mul, UInt32.add_assoc]
  · exact flags_countedRegs op i c.regs
  · rw [← Nat.add_assoc, ← h.cycles]
    rfl

end Scanned

/-! ### Runs of comparisons -/

namespace Exec

variable {mode : RepeatMode} {op : StringOp} {i : Instruction} {m m₁ m' : Machine} {k : Nat}

/-- A run of elements gets longer at its end, too. -/
theorem Passes.snoc (h : Passes mode op i k m m₁) (hElement : countedElement op i m₁ = .ok () m')
    (hGoesOn : repeatEnds mode m'.cpu.regs.flags.zero = false) :
    Passes mode op i (k + 1) m m' := by
  induction h with
  | none m => exact .next hElement hGoesOn (.none m')
  | next hFirst hFirstGoesOn _ ih => exact .next hFirst hFirstGoesOn (ih hElement)

/-- A comparison that does not end the repeat lets the run go on. -/
theorem exists_passes (hCompares : op.compares = true) (hk : k ≤ due i m)
    (hPermits : ∀ j < k, m.Permits op i j) (hGoesOn : ∀ j < k, ¬ m.Decides mode op i j) :
    ∃ m₁, Passes mode op i k m m₁ ∧ Scanned op i m k m₁ := by
  induction k with
  | zero => exact ⟨m, .none m, .start m⟩
  | succ k ih =>
    obtain ⟨m₁, hPasses, hScanned⟩ := ih (by omega) (fun j hj => hPermits j (by omega))
      fun j hj => hGoesOn j (by omega)
    obtain ⟨m₂, hElement, hNext⟩ :=
      hScanned.next hCompares (by omega) (hPermits k (Nat.lt_succ_self k))
    refine ⟨m₂, hPasses.snoc hElement ?_, hNext⟩
    rw [hNext.flags, ← Bool.not_eq_true, Machine.repeatEnds_scanFlags]
    exact hGoesOn k (Nat.lt_succ_self k)

/-- **A scan stops behind the first comparison that decides it**: a repeated CMPS or SCAS compares
the elements in their order. At the first comparison that ends the repeat it has the flags of this
one, and the counter and the index registers count it; if no comparison ends the repeat, all that
the counter asks for are made. Memory stays as it is. -/
theorem perform_scan (hOp : i.operation = .string op) (hCompares : op.compares = true)
    (hRep : i.rep = some mode) (m : Machine) :
    (∀ k < due i m, (∀ j ≤ k, m.Permits op i j) → (∀ j < k, ¬ m.Decides mode op i j) →
        m.Decides mode op i k → ∃ m', perform i m = .ok () m' ∧ Scanned op i m (k + 1) m') ∧
      ((∀ j < due i m, m.Permits op i j) → (∀ j < due i m, ¬ m.Decides mode op i j) →
        ∃ m', perform i m = .ok () m' ∧ Scanned op i m (due i m) m') := by
  refine ⟨?_, ?_⟩
  · intro k hk hPermits hGoesOn hDecides
    obtain ⟨m₁, hPasses, hScanned⟩ := exists_passes hCompares (Nat.le_of_lt hk)
      (fun j hj => hPermits j (Nat.le_of_lt hj)) hGoesOn
    obtain ⟨m', hElement, hLast⟩ := hScanned.next hCompares hk (hPermits k (Nat.le_refl k))
    have hEnds : repeatEnds mode m'.cpu.regs.flags.zero = true := by
      rw [hLast.flags, Machine.repeatEnds_scanFlags]
      exact hDecides
    obtain ⟨n, hLeft⟩ : ∃ n, due i m - k = n + 1 := ⟨due i m - k - 1, by omega⟩
    have hDue : due i m₁ = n + 1 := hScanned.counter.trans hLeft
    refine ⟨m', ?_, hLast⟩
    rw [perform_eq_repeatElement hOp hRep, hPasses.repeatElement_eq (Nat.le_of_lt hk) rfl, hLeft,
      repeatElement_of_ok hDue hElement, if_pos hEnds]
  · intro hPermits hGoesOn
    obtain ⟨m₁, hPasses, hScanned⟩ := exists_passes hCompares (Nat.le_refl _) hPermits hGoesOn
    refine ⟨m₁, ?_, hScanned⟩
    rw [perform_eq_repeatElement hOp hRep, hPasses.repeatElement_eq (Nat.le_refl _) rfl,
      Nat.sub_self]
    rfl

/-- Two strings that are compared downwards, from an offset where the first one soon wraps. -/
def scanMachine : Machine :=
  { cpu :=
      { regs :=
          { gprs := { eax := 5, ecx := 0xABCD0003, esi := 0x12340001, edi := 5 }
            flags := { direction := true } } }
    bus := { ram := ⟨⟨#[7, 2, 0, 0, 9, 2]⟩⟩ } }

/-- REPE CMPSB finds a difference in the second element, REPNE SCASB no match in three. -/
theorem perform_scan_downwards :
    let i : Instruction :=
      { operation := .string .cmps, size := .byte, rep := some .repe, length := 2 }
    let j : Instruction :=
      { operation := .string .scas, size := .byte, rep := some .repne, length := 2 }
    (∃ m', perform i scanMachine = .ok () m' ∧ due i m' = 1 ∧
      m'.cpu.regs.read (.word .si) = 0xFFFF ∧ m'.cpu.regs.read (.word .di) = 3 ∧
      m'.cpu.regs.flags = (Alu.sub .byte 7 9 { direction := true }).2 ∧
      m'.bus = scanMachine.bus) ∧
    ∃ m', perform j scanMachine = .ok () m' ∧ due j m' = 0 ∧
      m'.cpu.regs.read (.word .di) = 2 ∧
      m'.cpu.regs.flags = (Alu.sub .byte 5 0 { direction := true }).2 ∧
      m'.bus = scanMachine.bus := by
  intro i j
  have hReal (l : Location) : scanMachine.cpu.mayAccess l Width.byte.bytes .read = true := rfl
  have hPermits (op : StringOp) (n : Instruction) (hSize : n.size = .byte) (k : Nat) :
      scanMachine.Permits op n k := by
    constructor
    · intro _
      rw [hSize]
      exact hReal _
    · rw [hSize]
      exact hReal _
  refine ⟨?_, ?_⟩
  · have hFirst : ¬ scanMachine.Decides .repe .cmps i 0 := by
      intro hDiffer
      exact hDiffer (by decide +kernel)
    have hSecond : scanMachine.leftOperand .cmps i 1 ≠ scanMachine.rightOperand i 1 := by
      decide +kernel
    have hBefore : ∀ k < 1, ¬ scanMachine.Decides .repe .cmps i k := by
      intro k hk
      obtain rfl : k = 0 := by omega
      exact hFirst
    have hOp : i.operation = .string .cmps := rfl
    have hRep : i.rep = some .repe := rfl
    obtain ⟨m', hRun, hScanned⟩ := (perform_scan hOp rfl hRep scanMachine).1 1 (by decide +kernel)
      (fun k _ => hPermits .cmps i rfl k) hBefore hSecond
    exact ⟨m', hRun, hScanned.counter.trans (by decide +kernel),
      (hScanned.index .si (by decide)).trans (by decide +kernel),
      (hScanned.index .di (by decide)).trans (by decide +kernel),
      hScanned.flags.trans (by decide +kernel), hScanned.bus_eq⟩
  · have hNone : ∀ k < 3, scanMachine.leftOperand .scas j k ≠ scanMachine.rightOperand j k := by
      decide +kernel
    have hOp : j.operation = .string .scas := rfl
    have hRep : j.rep = some .repne := rfl
    obtain ⟨m', hRun, hScanned⟩ := (perform_scan hOp rfl hRep scanMachine).2
      (fun k _ => hPermits .scas j rfl k) hNone
    exact ⟨m', hRun, hScanned.counter.trans (by decide +kernel),
      (hScanned.index .di (by decide)).trans (by decide +kernel),
      hScanned.flags.trans (by decide +kernel), hScanned.bus_eq⟩

end Exec

end X86
