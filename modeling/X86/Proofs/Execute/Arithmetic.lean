import X86.Proofs.Exec.Composed

/-!
# Footprints and derivations of arithmetic

A handler looks, computes, writes its result, and sets the flags. Only the write of the result can
fault once something has been computed, and it faults before anything but memory has changed.

In the derivations the flags that a handler sets keep those of the system: `Flags.SameSystem`.
-/

namespace X86.Exec

variable {K : ChangeKind → Prop} {S : Prop}

/-! ### Register writes -/

/-- The registers can be rewritten by changes of kinds `K`. -/
def Rewrites (K : ChangeKind → Prop) (g : Registers → Registers) : Prop :=
  ∀ m : Machine, Evolves K m (m.withCpu fun c => { c with regs := g c.regs })

theorem Rewrites.write (hK : K .general) {r : Register} (hr : r.isSegment = false)
    (v : Registers → UInt32) : Rewrites K fun g => g.write r (v g) := fun m =>
  .single (.register m r (v m.cpu.regs) hK hr)

theorem Rewrites.setByte (hK : K .general) (r : ByteReg) (v : Registers → UInt8) :
    Rewrites K fun g => g.setByte r (v g) := by
  simpa [Registers.write] using Rewrites.write (r := .byte r) hK rfl fun g => (v g).toUInt32

theorem Rewrites.setWord (hK : K .general) (r : Gpr) (v : Registers → UInt16) :
    Rewrites K fun g => g.setWord r (v g) := by
  simpa [Registers.write] using Rewrites.write (r := .word r) hK rfl fun g => (v g).toUInt32

theorem Rewrites.setDword (hK : K .general) (r : Gpr) (v : Registers → UInt32) :
    Rewrites K fun g => g.setDword r (v g) :=
  Rewrites.write (r := .dword r) hK rfl v

theorem Rewrites.comp {g h : Registers → Registers} (hg : Rewrites K g) (hh : Rewrites K h) :
    Rewrites K fun x => h (g x) := fun m =>
  (hg m).trans (hh _)

theorem Rewrites.sure {g : Registers → Registers} (hg : Rewrites K g) : Sure K (modifyRegs g) :=
  ⟨hg, fun _ _ _ h => by cases h⟩

theorem Rewrites.setDouble (hK : K .general) (w : Width) (v : UInt64) :
    Rewrites K (·.setDouble w v) := by
  cases w with
  | byte => exact .setWord hK .ax fun _ => _
  | word => exact (Rewrites.setWord hK .ax fun _ => _).comp (.setWord hK .dx fun _ => _)
  | dword => exact (Rewrites.setDword hK .ax fun _ => _).comp (.setDword hK .dx fun _ => _)

theorem Rewrites.setQuotient (hK : K .general) (w : Width) (quotient remainder : UInt32) :
    Rewrites K (·.setQuotient w quotient remainder) := by
  cases w with
  | byte => exact (Rewrites.setByte hK .al fun _ => _).comp (.setByte hK .ah fun _ => _)
  | word => exact (Rewrites.setWord hK .ax fun _ => _).comp (.setWord hK .dx fun _ => _)
  | dword => exact (Rewrites.setDword hK .ax fun _ => _).comp (.setDword hK .dx fun _ => _)

/-! ### Handlers -/

/-- The end of most handlers: the result goes to its place, then the flags are set. -/
theorem Restartable.writeBack (hG : K .general) (hF : K .flags) (p : Place) (w : Width)
    (v : UInt32) (f : Flags) : Restartable K S (do Exec.writePlace p w v; setFlags f) :=
  (Restartable.writePlace hG p w v).before_sure fun _ => .setFlags hF f

theorem restartable_binary (hG : K .general) (hF : K .flags) (op : BinaryOp) (i : Instruction) :
    Restartable K S (binary op i) := by
  refine .after_reads (.place i _) fun dst => .after_reads (.place i _) fun src => ?_
  refine .after_reads (.readPlace _ _) fun a => .after_reads (.readPlace _ _) fun b => ?_
  refine .after_reads .flags fun f => ?_
  by_cases hop : op = .cmp
  · simp only [hop, if_true]
    exact (Sure.setFlags hF _).restartable
  · simp only [hop, if_false]
    exact .writeBack hG hF _ _ _ _

theorem restartable_test (hF : K .flags) (i : Instruction) : Restartable K S (test i) := by
  refine .after_reads (.place i _) fun dst => .after_reads (.place i _) fun src => ?_
  refine .after_reads (.readPlace _ _) fun a => .after_reads (.readPlace _ _) fun b => ?_
  exact .after_reads .flags fun f => (Sure.setFlags hF _).restartable

theorem restartable_unary (hG : K .general) (hF : K .flags) (op : UnaryOp) (i : Instruction) :
    Restartable K S (unary op i) := by
  refine .after_reads (.place i _) fun dst => .after_reads (.readPlace _ _) fun a => ?_
  exact .after_reads .flags fun f => .writeBack hG hF _ _ _ _

/-! ### Shifts -/

theorem canShift_iff {size : Nat} {amounts : List (Option Nat)} :
    Alu.canShift size amounts = true ↔ ∀ amount ∈ amounts, ∃ n, amount = some n ∧ n < size := by
  simp [Alu.canShift, Option.any_eq_true]

/-- No member of the shift group shifts its word too far. -/
theorem canShift_shiftAmounts (op : ShiftOp) (w : Width) (n : Nat) :
    Alu.canShift 64 (Alu.shiftAmounts op w n) = true := by
  have hBits : 8 ≤ w.bits ∧ w.bits ≤ 32 := by cases w <;> decide
  have hMod := Nat.mod_lt n (show 0 < w.bits by omega)
  rw [canShift_iff]
  intro amount h
  by_cases hn : n = 0
  · simp [Alu.shiftAmounts, hn] at h
  · simp only [Alu.shiftAmounts, hn, if_false] at h
    cases op <;> grind [Alu.difference]

/-- Nor does a shift over two operands. -/
theorem canShift_shldAmounts (w : Width) (count : UInt32) :
    Alu.canShift 128 (Alu.shldAmounts w count) = true := by
  have hBits : 8 ≤ w.bits ∧ w.bits ≤ 32 := by cases w <;> decide
  rw [canShift_iff]
  intro amount h
  rw [Alu.shldAmounts] at h
  grind [Alu.difference]

theorem canShift_shrdAmounts (w : Width) (count : UInt32) :
    Alu.canShift 128 (Alu.shrdAmounts w count) = true := by
  have hBits : 8 ≤ w.bits ∧ w.bits ≤ 32 := by cases w <;> decide
  rw [canShift_iff]
  intro amount h
  rw [Alu.shrdAmounts] at h
  grind [Alu.difference]

theorem requireShift_eq {size : Nat} {amounts : List (Option Nat)}
    (h : Alu.canShift size amounts = true) : requireShift size amounts = pure () := by
  rw [requireShift, if_pos h]

theorem restartable_shift (hG : K .general) (hF : K .flags) (op : ShiftOp) (i : Instruction) :
    Restartable K S (shift op i) := by
  refine .after_reads (.place i _) fun dst => .after_reads (.place i _) fun count => ?_
  refine .after_reads (.readPlace _ _) fun a => .after_reads (.readPlace _ _) fun n => ?_
  refine .after_reads .cpu fun c => ?_
  dsimp only
  rw [requireShift_eq (canShift_shiftAmounts op i.size _)]
  exact .after_reads (.pure _) fun _ => .after_reads .flags fun f => .writeBack hG hF _ _ _ _

theorem restartable_doubleShift (hG : K .general) (hF : K .flags)
    {amounts : Width → UInt32 → List (Option Nat)}
    (hAmounts : ∀ w n, Alu.canShift 128 (amounts w n) = true)
    (compute : Width → UInt32 → UInt32 → UInt32 → Flags → UInt32 × Flags) (i : Instruction) :
    Restartable K S (doubleShift amounts compute i) := by
  refine .after_reads (.place i _) fun dst => .after_reads (.place i _) fun src => ?_
  refine .after_reads (.place i _) fun count => .after_reads (.readPlace _ _) fun a => ?_
  refine .after_reads (.readPlace _ _) fun b => .after_reads (.readPlace _ _) fun n => ?_
  rw [requireShift_eq (hAmounts i.size n)]
  exact .after_reads (.pure _) fun _ => .after_reads .flags fun f => .writeBack hG hF _ _ _ _

theorem restartable_multiply (hG : K .general) (hF : K .flags) (signed : Bool)
    (i : Instruction) : Restartable K S (multiply signed i) := by
  refine .after_reads (.place i _) fun src => .after_reads (.readPlace _ _) fun b => ?_
  refine .after_reads .cpu fun c => ?_
  exact ((Rewrites.setDouble hG _ _).sure.bind fun _ => .setFlags hF _).restartable

theorem restartable_multiplyCut (hG : K .general) (hF : K .flags) (i : Instruction) :
    Restartable K S (multiplyCut i) := by
  refine .after_reads (.place i _) fun dst => .after_reads (.place i _) fun src => ?_
  refine .after_reads .cpu fun c => ?_
  by_cases hi : i.src2 = .absent
  · simp only [hi, if_true]
    refine .after_reads (.readPlace _ _) fun a => .after_reads (.readPlace _ _) fun b => ?_
    exact .after_reads (.pure _) fun _ => .writeBack hG hF _ _ _ _
  · simp only [hi, if_false]
    refine .after_reads (.place i _) fun imm => .after_reads (.readPlace _ _) fun a => ?_
    refine .after_reads (.readPlace _ _) fun b => .after_reads (.pure _) fun _ => ?_
    exact .writeBack hG hF _ _ _ _

theorem restartable_divide (hG : K .general) (signed : Bool) (i : Instruction) :
    Restartable K S (divide signed i) := by
  refine .after_reads (.place i _) fun src => .after_reads (.readPlace _ _) fun divisor => ?_
  refine .after_reads .cpu fun c => ?_
  dsimp only
  split
  · exact (Rewrites.setQuotient hG _ _ _).sure.restartable
  · exact .fault _

theorem restartable_decimal (hG : K .general) (hF : K .flags) (op : DecimalOp) :
    Restartable K S (decimal op) := by
  have hAl (v : UInt8) (f : Flags) :
      Sure K (do modifyRegs (·.setByte .al v); setFlags f) :=
    (Rewrites.setByte hG .al fun _ => v).sure.bind fun _ => .setFlags hF f
  have hAx (v : UInt16) (f : Flags) :
      Sure K (do modifyRegs (·.setWord .ax v); setFlags f) :=
    (Rewrites.setWord hG .ax fun _ => v).sure.bind fun _ => .setFlags hF f
  refine .after_reads .cpu fun c => Sure.restartable ?_
  cases op with
  | daa | das => exact hAl _ _
  | aaa | aas => exact hAx _ _

theorem restartable_aam (hG : K .general) (hF : K .flags) (i : Instruction) :
    Restartable K S (aam i) := by
  refine .after_reads .regs fun g => ?_
  split
  · exact ((Rewrites.setWord hG .ax fun _ => _).sure.bind fun _ => .setFlags hF _).restartable
  · exact .fault _

theorem restartable_aad (hG : K .general) (hF : K .flags) (i : Instruction) :
    Restartable K S (aad i) := by
  refine .after_reads .regs fun g => ?_
  exact ((Rewrites.setWord hG .ax fun _ => _).sure.bind fun _ => .setFlags hF _).restartable

theorem restartable_extendAccumulator (hG : K .general) (i : Instruction) :
    Restartable K S (extendAccumulator i) := by
  refine Sure.restartable (Rewrites.sure ?_)
  by_cases hi : i.size = .dword
  · simpa only [hi, if_true] using Rewrites.setDword hG .ax fun g => _
  · simpa only [hi, if_false] using Rewrites.setWord hG .ax fun g => _

theorem restartable_extendData (hG : K .general) (i : Instruction) :
    Restartable K S (extendData i) := by
  refine Sure.restartable (Rewrites.sure ?_)
  by_cases hi : i.size = .dword
  · simpa only [hi, if_true] using Rewrites.setDword hG .dx fun g => _
  · simpa only [hi, if_false] using Rewrites.setWord hG .dx fun g => _

theorem restartable_bitTest (hG : K .general) (hF : K .flags) (op : BitOp) (i : Instruction) :
    Restartable K S (bitTest op i) := by
  refine .after_reads (.place i _) fun dst => .after_reads (.place i _) fun src => ?_
  refine .after_reads (.readPlace _ _) fun number => .after_reads (.readPlace _ _) fun v => ?_
  have hFlags (b : Bool) : Sure K (do setFlags { ← flags with carry := b }) :=
    Sure.flags.bind fun f => .setFlags hF _
  dsimp only
  split
  · exact (Restartable.writePlace hG _ _ _).before_sure fun _ => hFlags _
  · exact (hFlags _).restartable

theorem restartable_bitScan (hG : K .general) (hF : K .flags) (op : ScanOp) (i : Instruction) :
    Restartable K S (bitScan op i) := by
  refine .after_reads (.place i _) fun dst => .after_reads (.place i _) fun src => ?_
  refine .after_reads (.readPlace _ _) fun v => ?_
  have hFlags (b : Bool) : Sure K (do setFlags { ← flags with zero := b }) :=
    Sure.flags.bind fun f => .setFlags hF _
  split
  · exact (Restartable.writePlace hG _ _ _).before_sure fun _ => hFlags false
  · exact (hFlags true).restartable

/-! ### Status flags

No result of arithmetic touches a system flag. -/

section Status

variable (w : Width) (a b : UInt32) (f : Flags)

theorem sameSystem_binary (op : BinaryOp) : (Alu.binary op w a b f).2.SameSystem f := by
  cases op <;> exact ⟨rfl, rfl, rfl, rfl, rfl, rfl⟩

theorem sameSystem_unary (op : UnaryOp) : (Alu.unary op w a f).2.SameSystem f := by
  cases op <;> exact ⟨rfl, rfl, rfl, rfl, rfl, rfl⟩

theorem sameSystem_shift (op : ShiftOp) (m : Features) :
    (Alu.shift op m w a b f).2.SameSystem f := by
  cases op
  case rol | ror | shl | shr | sal | sar =>
    simp only [Alu.shift, Alu.rol, Alu.ror, Alu.shl, Alu.shr, Alu.sar]
    split <;> exact ⟨rfl, rfl, rfl, rfl, rfl, rfl⟩
  case rcl | rcr =>
    simp only [Alu.shift, Alu.rcl, Alu.rcr]
    split <;> exact ⟨rfl, rfl, rfl, rfl, rfl, rfl⟩

theorem sameSystem_shld (count : UInt32) : (Alu.shld w a b count f).2.SameSystem f := by
  simp only [Alu.shld]
  split <;> exact ⟨rfl, rfl, rfl, rfl, rfl, rfl⟩

theorem sameSystem_shrd (count : UInt32) : (Alu.shrd w a b count f).2.SameSystem f := by
  simp only [Alu.shrd]
  split <;> exact ⟨rfl, rfl, rfl, rfl, rfl, rfl⟩

end Status

/-! ### Derivations -/

/-- The general registers can be rewritten on a model of this width. -/
def Writes (wide : Bool) (g : Registers → Registers) : Prop :=
  ∀ c : Cpu, Cpu.Moves wide c { c with regs := g c.regs }

section Derivations

variable {wide : Bool} {P : Cpu → Prop}

theorem Writes.write {r : Register} (hr : r.Fits wide) (v : Registers → UInt32) :
    Writes wide fun g => g.write r (v g) := fun c =>
  .single (.register c r (v c.regs) hr)

theorem Writes.setByte (r : ByteReg) (v : Registers → UInt8) :
    Writes wide fun g => g.setByte r (v g) := by
  have hr : (Register.byte r).Fits wide := Register.fits_byte r
  simpa [Registers.write] using Writes.write hr fun g => (v g).toUInt32

theorem Writes.setWord (r : Gpr) (v : Registers → UInt16) :
    Writes wide fun g => g.setWord r (v g) := by
  have hr : (Register.word r).Fits wide := Register.fits_word r
  simpa [Registers.write] using Writes.write hr fun g => (v g).toUInt32

theorem Writes.setDword (hw : wide = true) (r : Gpr) (v : Registers → UInt32) :
    Writes wide fun g => g.setDword r (v g) :=
  Writes.write (Register.fits_dword hw r) v

theorem Writes.comp {g h : Registers → Registers} (hg : Writes wide g) (hh : Writes wide h) :
    Writes wide fun x => h (g x) := fun c =>
  (hg c).trans (hh _)

theorem Writes.setDouble {w : Width} (hw : wide = false → w ≠ .dword) (v : UInt64) :
    Writes wide (·.setDouble w v) := by
  cases w with
  | byte => exact .setWord .ax fun _ => _
  | word => exact (Writes.setWord .ax fun _ => _).comp (.setWord .dx fun _ => _)
  | dword =>
    have hWide : wide = true := eq_true_of_ne_false fun h => hw h rfl
    exact (Writes.setDword hWide .ax fun _ => _).comp (.setDword hWide .dx fun _ => _)

theorem Writes.setQuotient {w : Width} (hw : wide = false → w ≠ .dword)
    (quotient remainder : UInt32) : Writes wide (·.setQuotient w quotient remainder) := by
  cases w with
  | byte => exact (Writes.setByte .al fun _ => _).comp (.setByte .ah fun _ => _)
  | word => exact (Writes.setWord .ax fun _ => _).comp (.setWord .dx fun _ => _)
  | dword =>
    have hWide : wide = true := eq_true_of_ne_false fun h => hw h rfl
    exact (Writes.setDword hWide .ax fun _ => _).comp (.setDword hWide .dx fun _ => _)

namespace Composed

theorem modifyRegs {g : Registers → Registers} (hg : Writes wide g) :
    Composed wide P (Exec.modifyRegs g) fun _ _ => True :=
  moves hg

/-- Written registers that keep the flags, and then flags with the same system flags. -/
theorem modifyRegs_setFlags {g : Registers → Registers} (hg : Writes wide g)
    (hKeep : ∀ x, (g x).flags = x.flags) {f f' : Flags} (hf : f'.SameSystem f) :
    Composed wide (·.regs.flags = f) (do Exec.modifyRegs g; Exec.setFlags f')
      fun _ _ => True :=
  (move_keeping (t := fun c => c.regs.flags) hg fun c => hKeep c.regs).next fun _ => setFlags hf

end Composed

variable {i : Instruction}

theorem composed_binary (op : BinaryOp) (hi : i.Fits wide) (hDst : i.dst.IsPlain) :
    Composed wide P (binary op i) fun _ _ => True := by
  refine .afterPlace hi.dst hi.addr32 fun dst hp hPlain => ?_
  refine .afterPlace hi.src hi.addr32 fun src hq _ => ?_
  refine .afterReadPlace hp fun a => .afterReadPlace hq fun b => .afterFlags fun f => ?_
  by_cases hop : op = .cmp
  · simp only [hop, if_true]
    exact .setFlags (sameSystem_binary _ _ _ _ _)
  · simp only [hop, if_false]
    exact .writeBack hp (hPlain hDst) _ _ (sameSystem_binary _ _ _ _ _)

theorem composed_test (hi : i.Fits wide) : Composed wide P (test i) fun _ _ => True := by
  refine .afterPlace hi.dst hi.addr32 fun dst hp _ => .afterPlace hi.src hi.addr32 fun src hq _ => ?_
  refine .afterReadPlace hp fun a => .afterReadPlace hq fun b => .afterFlags fun f => ?_
  exact .setFlags ⟨rfl, rfl, rfl, rfl, rfl, rfl⟩

theorem composed_unary (op : UnaryOp) (hi : i.Fits wide) (hDst : i.dst.IsPlain) :
    Composed wide P (unary op i) fun _ _ => True := by
  refine .afterPlace hi.dst hi.addr32 fun dst hp hPlain => ?_
  refine .afterReadPlace hp fun a => .afterFlags fun f => ?_
  exact .writeBack hp (hPlain hDst) _ _ (sameSystem_unary _ _ _ _)

theorem composed_shift (op : ShiftOp) (hi : i.Fits wide) (hDst : i.dst.IsPlain) :
    Composed wide P (shift op i) fun _ _ => True := by
  refine .afterPlace hi.dst hi.addr32 fun dst hp hPlain => ?_
  refine .afterPlace hi.src hi.addr32 fun count hq _ => ?_
  refine .afterReadPlace hp fun a => .afterReadPlace hq fun n => .afterCpu fun c _ => ?_
  dsimp only
  rw [requireShift_eq (canShift_shiftAmounts op i.size _)]
  refine (Composed.answer ()).next fun _ => .afterFlags fun f => ?_
  exact .writeBack hp (hPlain hDst) _ _ (sameSystem_shift _ _ _ _ _ _)

theorem composed_doubleShift {amounts : Width → UInt32 → List (Option Nat)}
    (hAmounts : ∀ w n, Alu.canShift 128 (amounts w n) = true)
    {compute : Width → UInt32 → UInt32 → UInt32 → Flags → UInt32 × Flags}
    (hCompute : ∀ w a b f n, (compute w a b n f).2.SameSystem f)
    (hi : i.Fits wide) (hDst : i.dst.IsPlain) :
    Composed wide P (doubleShift amounts compute i) fun _ _ => True := by
  refine .afterPlace hi.dst hi.addr32 fun dst hp hPlain => ?_
  refine .afterPlace hi.src hi.addr32 fun src hq _ => ?_
  refine .afterPlace hi.src2 hi.addr32 fun count hr _ => ?_
  refine .afterReadPlace hp fun a => .afterReadPlace hq fun b => .afterReadPlace hr fun n => ?_
  rw [requireShift_eq (hAmounts i.size n)]
  refine (Composed.answer ()).next fun _ => .afterFlags fun f => ?_
  exact .writeBack hp (hPlain hDst) _ _ (hCompute _ _ _ _ _)

theorem composed_multiply (signed : Bool) (hi : i.Fits wide) :
    Composed wide P (multiply signed i) fun _ _ => True := by
  refine .afterPlace hi.dst hi.addr32 fun src hp _ => .afterReadPlace hp fun b => ?_
  refine .afterCpu fun c _ => .of_flags ?_
  refine .modifyRegs_setFlags (.setDouble hi.size _) (fun g => ?_) ?_
  · cases i.size <;> rfl
  · cases signed <;> exact ⟨rfl, rfl, rfl, rfl, rfl, rfl⟩

theorem composed_multiplyCut (hi : i.Fits wide) (hDst : i.dst.IsPlain) :
    Composed wide P (multiplyCut i) fun _ _ => True := by
  refine .afterPlace hi.dst hi.addr32 fun dst hp hPlain => ?_
  refine .afterPlace hi.src hi.addr32 fun src hq _ => .afterCpu fun c _ => .of_flags ?_
  have hEnd (a b : UInt32) : Composed wide (·.regs.flags = c.regs.flags) (do
      writePlace dst i.size (Alu.imul c.features i.size a b c.regs.flags).1.toUInt32
      setFlags (Alu.imul c.features i.size a b c.regs.flags).2) fun _ _ => True :=
    .writeBack hp (hPlain hDst) _ _ ⟨rfl, rfl, rfl, rfl, rfl, rfl⟩
  by_cases hi2 : i.src2 = .absent
  · simp only [hi2, if_true]
    refine .afterReadPlace hp fun a => .afterReadPlace hq fun b => ?_
    exact (Composed.answer_keeping _).next fun x => hEnd x.1 x.2
  · simp only [hi2, if_false]
    refine .afterPlace hi.src2 hi.addr32 fun imm hr _ => .afterReadPlace hq fun a => ?_
    exact .afterReadPlace hr fun b => (Composed.answer_keeping _).next fun x => hEnd x.1 x.2

theorem composed_divide (signed : Bool) (hi : i.Fits wide) :
    Composed wide P (divide signed i) fun _ _ => True := by
  refine .afterPlace hi.dst hi.addr32 fun src hp _ => .afterReadPlace hp fun divisor => ?_
  refine .afterCpu fun c _ => ?_
  dsimp only
  split
  · exact .modifyRegs (.setQuotient hi.size _ _)
  · exact .fault _

theorem composed_decimal (op : DecimalOp) : Composed wide P (decimal op) fun _ _ => True := by
  have hAl {f f' : Flags} (v : UInt8) (hf : f'.SameSystem f) :
      Composed wide (·.regs.flags = f) (do modifyRegs (·.setByte .al v); setFlags f')
        fun _ _ => True :=
    .modifyRegs_setFlags (.setByte .al fun _ => v) (fun _ => rfl) hf
  have hAx {f f' : Flags} (v : UInt16) (hf : f'.SameSystem f) :
      Composed wide (·.regs.flags = f) (do modifyRegs (·.setWord .ax v); setFlags f')
        fun _ _ => True :=
    .modifyRegs_setFlags (.setWord .ax fun _ => v) (fun _ => rfl) hf
  refine .afterCpu fun c _ => .of_flags ?_
  cases op with
  | daa | das => exact hAl _ ⟨rfl, rfl, rfl, rfl, rfl, rfl⟩
  | aaa | aas => exact hAx _ ⟨rfl, rfl, rfl, rfl, rfl, rfl⟩

/-- The registers that have been looked at hold the flags. -/
theorem Composed.of_regs {α : Type} {x : Exec α} {g : Registers} {Q : α → Cpu → Prop}
    (hx : Composed wide (·.regs.flags = g.flags) x Q) : Composed wide (·.regs = g) x Q :=
  hx.weaken (fun _ h => h ▸ rfl) fun _ _ h => h

theorem composed_aam (i : Instruction) : Composed wide P (aam i) fun _ _ => True := by
  refine .afterRegs fun g => .of_regs ?_
  split
  · rename_i ax f hAam
    have hf : f.SameSystem g.flags := by
      rw [Alu.aam] at hAam
      split at hAam
      · cases hAam
      · cases hAam
        exact ⟨rfl, rfl, rfl, rfl, rfl, rfl⟩
    exact .modifyRegs_setFlags (.setWord .ax fun _ => ax) (fun _ => rfl) hf
  · exact .fault _

theorem composed_aad (i : Instruction) : Composed wide P (aad i) fun _ _ => True := by
  refine .afterRegs fun g => .of_regs ?_
  exact .modifyRegs_setFlags (.setWord .ax fun _ => _) (fun _ => rfl)
    ⟨rfl, rfl, rfl, rfl, rfl, rfl⟩

theorem composed_extendAccumulator (hi : i.Fits wide) :
    Composed wide P (extendAccumulator i) fun _ _ => True := by
  refine .modifyRegs ?_
  by_cases hs : i.size = .dword
  · simpa only [hs, if_true] using
      Writes.setDword (eq_true_of_ne_false fun h => hi.size h hs) .ax fun g => _
  · simpa only [hs, if_false] using Writes.setWord .ax fun g => _

theorem composed_extendData (hi : i.Fits wide) :
    Composed wide P (extendData i) fun _ _ => True := by
  refine .modifyRegs ?_
  by_cases hs : i.size = .dword
  · simpa only [hs, if_true] using
      Writes.setDword (eq_true_of_ne_false fun h => hi.size h hs) .dx fun g => _
  · simpa only [hs, if_false] using Writes.setWord .dx fun g => _

/-- One status flag after an operand; the others stay as they are. -/
theorem composed_setStatus {h : Flags → Flags} (hh : ∀ f, (h f).SameSystem f) :
    Composed wide P (do setFlags (h (← flags))) fun _ _ => True :=
  .afterFlags fun f => .setFlags (hh f)

theorem fits_bitPlace {dst src : Place} (hp : dst.Fits wide) (w : Width) (number : UInt32) :
    (bitPlace w dst src number).Fits wide := by
  unfold bitPlace
  split
  · exact hp
  · exact hp

theorem isPlain_bitPlace {dst src : Place} (hp : dst.IsPlain) (w : Width) (number : UInt32) :
    (bitPlace w dst src number).IsPlain := by
  unfold bitPlace
  split
  · intro s hs
    cases hs
  · exact hp

theorem composed_bitTest (op : BitOp) (hi : i.Fits wide) (hDst : i.dst.IsPlain) :
    Composed wide P (bitTest op i) fun _ _ => True := by
  refine .afterPlace hi.dst hi.addr32 fun dst hp hPlain => ?_
  refine .afterPlace hi.src hi.addr32 fun src hq _ => .afterReadPlace hq fun number => ?_
  have hp' : (bitPlace i.size dst src number).Fits wide := fits_bitPlace hp i.size number
  refine .afterReadPlace hp' fun v => ?_
  have hFlags (b : Bool) (P : Cpu → Prop) :
      Composed wide P (do setFlags { ← flags with carry := b }) fun _ _ => True :=
    composed_setStatus fun f => ⟨rfl, rfl, rfl, rfl, rfl, rfl⟩
  dsimp only
  split
  · exact (Composed.writePlace hp' (isPlain_bitPlace (hPlain hDst) _ _) _ _).next fun _ =>
      hFlags _ _
  · exact hFlags _ _

theorem composed_bitScan (op : ScanOp) (hi : i.Fits wide) (hDst : i.dst.IsPlain) :
    Composed wide P (bitScan op i) fun _ _ => True := by
  refine .afterPlace hi.dst hi.addr32 fun dst hp hPlain => ?_
  refine .afterPlace hi.src hi.addr32 fun src hq _ => .afterReadPlace hq fun v => ?_
  have hFlags (b : Bool) (P : Cpu → Prop) :
      Composed wide P (do setFlags { ← flags with zero := b }) fun _ _ => True :=
    composed_setStatus fun f => ⟨rfl, rfl, rfl, rfl, rfl, rfl⟩
  split
  · exact (Composed.writePlace hp (hPlain hDst) _ _).next fun _ => hFlags false _
  · exact hFlags true _

end Derivations

end X86.Exec
