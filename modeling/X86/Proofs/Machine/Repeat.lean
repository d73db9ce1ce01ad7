import X86.Machine.Step
import X86.Proofs.Cpu.Move
import X86.Proofs.Exec.Frame

/-!
# Repeated string instructions

A repeat marker makes an instruction of many elements, and the counter says how many are left. No
element touches the counter, or anything that a snapshot takes back, so the instruction can be taken
up again where it has stopped.

* `Exec.countedElement`: an element, and its count.
* `Exec.Steady`: the computation keeps a part of the processor and does not look at the counts.
* `Exec.Passes`, `Exec.Finishes`: a run of elements, and how it ends.
* `Exec.perform_repeated`: **a repeated instruction is its elements, one after the other, and goes
  on from wherever a run of them has come to.**
-/

namespace X86

/-! ### Views of a register -/

theorem width_ofGpr_truncate (wide : Bool) (r : Gpr) (v : UInt32) :
    (Register.ofGpr wide r).width.truncate v = wrapOffset wide v := by
  cases wide <;> rfl

/-- An offset that is not zero goes down by one without wrapping. -/
theorem toNat_wrapOffset_pred {wide : Bool} {v : UInt32} (hv : wrapOffset wide v = v) {n : Nat}
    (hn : v.toNat = n + 1) : (wrapOffset wide (v - 1)).toNat = n := by
  have hPred : (v - 1).toNat = n := by
    rw [UInt32.toNat_sub_of_le _ _ (UInt32.le_iff_toNat_le.2 (hn ▸ Nat.le_add_left 1 n)), hn]
    rfl
  have hLt : v.toNat < (if wide then Width.dword else .word).values := by
    rw [← hv, toNat_wrapOffset]
    exact Nat.mod_lt _ (Width.values_pos _)
  rw [toNat_wrapOffset, hPred]
  exact Nat.mod_eq_of_lt (by omega)

theorem ofNat_succ_mul (k : Nat) (d : UInt32) :
    UInt32.ofNat (k + 1) * d = UInt32.ofNat k * d + d := by
  rw [UInt32.ofNat_add, UInt32.add_mul, show UInt32.ofNat 1 = 1 from rfl, UInt32.one_mul]

namespace Registers

theorem wrapOffset_read (g : Registers) (wide : Bool) (r : Gpr) :
    wrapOffset wide (g.read (.ofGpr wide r)) = g.read (.ofGpr wide r) := by
  cases wide with
  | true => exact Cpu.wrapOffset_true _
  | false =>
    change wrapOffset false (g.word r).toUInt32 = (g.word r).toUInt32
    rw [Cpu.wrapOffset_false_eq, UInt16.toUInt16_toUInt32]

/-- A write to a register is read back, and is not seen in the others. -/
theorem read_write_ofGpr (g : Registers) (wide : Bool) (r s : Gpr) (v : UInt32) :
    (g.write (.ofGpr wide r) v).read (.ofGpr wide s) =
      if s = r then wrapOffset wide v else g.read (.ofGpr wide s) := by
  split
  · rename_i hSame
    rw [hSame, read_write_self, width_ofGpr_truncate]
  · rename_i hNe
    cases wide with
    | true => exact g.gprs.get_set_ne v hNe
    | false => exact congrArg (fun v => v.toUInt16.toUInt32) (g.gprs.get_set_ne _ hNe)

end Registers

/-! ### Elements -/

namespace StringOp

/-- The index registers that an element moves. -/
def indexes : StringOp → List Gpr
  | .movs | .cmps => [.si, .di]
  | .lods | .outs => [.si]
  | .scas | .stos | .ins => [.di]

/-- The instruction goes to a port. -/
def usesPort : StringOp → Bool
  | .ins | .outs => true
  | _ => false

theorem nodup_indexes (op : StringOp) : op.indexes.Nodup := by cases op <;> decide

theorem cx_not_mem_indexes (op : StringOp) : Gpr.cx ∉ op.indexes := by cases op <;> decide

end StringOp

namespace Exec

/-- An element without its moves of the index registers. -/
def stringWork (op : StringOp) (i : Instruction) : Exec Unit := do
  let c ← cpu
  let w := i.size
  match op with
  | .movs =>
    let v ← readMem (c.stringSource i) w
    writeMem (c.stringTarget i) w v
  | .cmps =>
    let a ← readMem (c.stringSource i) w
    let b ← readMem (c.stringTarget i) w
    compareElements w a b
  | .scas =>
    let b ← readMem (c.stringTarget i) w
    compareElements w (c.regs.read (.accumulator w)) b
  | .lods =>
    let v ← readMem (c.stringSource i) w
    writeRegister (.accumulator w) v
  | .stos => writeMem (c.stringTarget i) w (c.regs.read (.accumulator w))
  | .ins =>
    check c.requireIo
    let v ← input (c.regs.word .dx) w
    writeMem (c.stringTarget i) w v
  | .outs =>
    check c.requireIo
    let v ← readMem (c.stringSource i) w
    output (c.regs.word .dx) w v

/-- An index register moved past an element. -/
def movedIndex (i : Instruction) (g : Registers) (r : Gpr) : Registers :=
  let view := Register.ofGpr i.addr32 r
  g.write view (g.read view + stringStep g.flags i.size)

/-- The index registers moved past an element. -/
def movedIndexes (op : StringOp) (i : Instruction) (g : Registers) : Registers :=
  op.indexes.foldl (movedIndex i) g

theorem stringElement_eq (op : StringOp) (i : Instruction) :
    stringElement op i = stringWork op i >>= fun _ => modifyRegs (movedIndexes op i) := by
  rw [stringElement, stringWork, bind_assoc]
  congr 1
  funext c
  cases op
  all_goals
    simp only [bind_assoc]
    rfl

/-- An element, and its count. -/
def countedElement (op : StringOp) (i : Instruction) : Exec Unit := do
  stringElement op i
  modifyRegs fun g => g.write (repeatCounter i) (g.read (repeatCounter i) - 1)
  modifyCpu fun c => { c with cycles := c.cycles + 1 }

/-- What a counted element adds to a register other than the accumulator. -/
def elementShift (op : StringOp) (i : Instruction) (f : Flags) (r : Gpr) : UInt32 :=
  if r = .cx then 0 - 1 else if r ∈ op.indexes then stringStep f i.size else 0

theorem elementShift_congr {op : StringOp} {i : Instruction} {f f' : Flags} {r : Gpr}
    (h : f'.direction = f.direction) : elementShift op i f' r = elementShift op i f r := by
  rw [elementShift, elementShift, stringStep, stringStep, h]

end Exec

/-! ### What an element keeps -/

namespace Cpu

/-- The processor apart from the accumulator and all flags but the direction. -/
def aside (c : Cpu) : Cpu :=
  { c with
    regs :=
      { c.regs with
        gprs := { c.regs.gprs with eax := 0 }
        flags := { direction := c.regs.flags.direction } } }

/-- The processor apart from all that a repeated instruction works with. -/
def background (c : Cpu) : Cpu :=
  { c with
    regs :=
      { c.regs with
        gprs := { c.regs.gprs with eax := 0, ecx := 0, esi := 0, edi := 0 }
        flags := { direction := c.regs.flags.direction } }
    cycles := 0 }

/-- The processor with more instructions and cycles on its count. -/
def ahead (c : Cpu) (instructions cycles : Nat) : Cpu :=
  { c with instructions := c.instructions + instructions, cycles := c.cycles + cycles }

theorem aside_writeRegister (c : Cpu) (w : Width) (v : UInt32) :
    (c.writeRegister (.accumulator w) v).aside = c.aside := by
  cases w <;> rfl

theorem read_of_aside {c c' : Cpu} (h : c'.aside = c.aside) {wide : Bool} {r : Gpr}
    (hr : r ≠ .ax) : c'.regs.read (.ofGpr wide r) = c.regs.read (.ofGpr wide r) := by
  have hAside (c : Cpu) : c.aside.regs.read (.ofGpr wide r) = c.regs.read (.ofGpr wide r) := by
    cases r with
    | ax => exact absurd rfl hr
    | cx | dx | bx | sp | bp | si | di => cases wide <;> rfl
  rw [← hAside c', h, hAside]

theorem direction_of_background {c c' : Cpu} (h : c'.background = c.background) :
    c'.regs.flags.direction = c.regs.flags.direction :=
  (congrArg (·.regs.flags.direction) h : c'.background.regs.flags.direction = _)

theorem mayAccess_of_background {c c' : Cpu} (h : c'.background = c.background) (l : Location)
    (n : Nat) (kind : AccessKind) : c'.mayAccess l n kind = c.mayAccess l n kind :=
  (congrArg (mayAccess · l n kind) h :
    c'.background.mayAccess l n kind = c.background.mayAccess l n kind)

theorem background_eq_of_aside {c c' : Cpu} (h : c'.aside = c.aside) :
    c'.background = c.background :=
  (congrArg background h : c'.aside.background = c.aside.background)

/-- A snapshot takes back nothing but the instruction pointer if the background is the same. -/
theorem restore_of_background {c start : Cpu} {i : Instruction}
    (h : c.background = (start.begin i).background) :
    c.restore start.snapshot = c.setEip start.regs.eip := by
  have hSelectors : c.regs.selectors = start.regs.selectors :=
    (congrArg (·.regs.selectors) h : c.background.regs.selectors = _)
  have hEsp : c.regs.gprs.esp = start.regs.gprs.esp :=
    (congrArg (·.regs.gprs.esp) h : c.background.regs.gprs.esp = _)
  have hCaches : c.caches = start.caches := (congrArg caches h : c.background.caches = _)
  rw [restore, snapshot, Registers.selector, ← hSelectors, ← hEsp, ← hCaches]
  rfl

/-- An instruction that has been taken back begins where it had begun. -/
theorem begin_of_background {c start : Cpu} {i : Instruction}
    (h : c.background = (start.begin i).background) :
    (c.restore start.snapshot).begin i = c.ahead 1 1 := by
  have hEip : c.regs.eip = wrapOffset start.code32 (start.regs.eip + UInt32.ofNat i.length) :=
    (congrArg (·.regs.eip) h : c.background.regs.eip = _)
  have hShadow : c.shadow = false := (congrArg shadow h : c.background.shadow = _)
  have hCaches : c.caches = start.caches := (congrArg caches h : c.background.caches = _)
  have hWide : start.code32 = c.code32 := congrArg (·.cs.big) hCaches.symm
  rw [restore_of_background h]
  calc (c.setEip start.regs.eip).begin i
    _ = { c.setEip (wrapOffset c.code32 (start.regs.eip + UInt32.ofNat i.length)) with
          shadow := false
          instructions := c.instructions + 1
          cycles := c.cycles + 1 } := rfl
    _ = c.ahead 1 1 := by
      rw [← hWide, ← hEip, ← hShadow]
      rfl

end Cpu

/-- The machine with more instructions and cycles on its count. -/
def Machine.ahead (m : Machine) (instructions cycles : Nat) : Machine :=
  m.withCpu (·.ahead instructions cycles)

namespace Exec

variable {α β γ : Type}

/-- The result with another machine. -/
def onMachine (g : Machine → Machine) :
    EStateM.Result Stop Machine α → EStateM.Result Stop Machine α
  | .ok a m => .ok a (g m)
  | .error s m => .error s (g m)

/-- The computation keeps a part of the processor, and does not look at the counts. -/
structure Steady (part : Cpu → γ) (x : Exec α) : Prop where
  part_eq : ∀ m, part (after x m).cpu = part m.cpu
  ahead_eq : ∀ m j n, x (m.ahead j n) = onMachine (·.ahead j n) (x m)

namespace Steady

variable {part : Cpu → γ} {x : Exec α} {f : α → Exec β}

theorem pure (a : α) : Steady part (Pure.pure a : Exec α) := ⟨fun _ => rfl, fun _ _ _ => rfl⟩

theorem fault (e : Exception) : Steady part (fault e : Exec α) := ⟨fun _ => rfl, fun _ _ _ => rfl⟩

theorem flags : Steady part flags := ⟨fun _ => rfl, fun _ _ _ => rfl⟩

theorem check (r : Except Exception α) : Steady part (check r) := by
  cases r with
  | ok a => exact pure a
  | error e => exact fault e

theorem bind (hx : Steady part x) (hf : ∀ a, Steady part (f a)) : Steady part (x >>= f) := by
  constructor
  · intro m
    have hFirst := hx.part_eq m
    cases h : x m with
    | ok a m₁ =>
      rw [after_of_ok h] at hFirst
      rw [after_bind_of_ok h, (hf a).part_eq m₁, hFirst]
    | error s m₁ => rwa [after_bind_of_error h, ← after_of_error h]
  · intro m j n
    have hFirst := hx.ahead_eq m j n
    cases h : x m with
    | ok a m₁ =>
      rw [h] at hFirst
      rw [bind_of_ok h, bind_of_ok hFirst, (hf a).ahead_eq]
    | error s m₁ =>
      rw [h] at hFirst
      rw [bind_of_error h, bind_of_error hFirst]
      rfl

/-- The machine may be looked at, apart from the counts. -/
theorem get {f : Machine → Exec β} (hf : ∀ m, Steady part (f m))
    (hSame : ∀ m j n, f (m.ahead j n) = f m) : Steady part (MonadState.get >>= f) := by
  constructor
  · intro m
    rw [after_bind_of_ok (get_apply m)]
    exact (hf m).part_eq m
  · intro m j n
    rw [bind_of_ok (get_apply _), bind_of_ok (get_apply m), hSame]
    exact (hf m).ahead_eq m j n

theorem cpu {f : Cpu → Exec β} (hf : ∀ c, Steady part (f c))
    (hSame : ∀ c j n, f (c.ahead j n) = f c) : Steady part (cpu >>= f) :=
  get (fun m => hf m.cpu) fun m => hSame m.cpu

/-- A change that the counts do not matter for. -/
theorem modify {g : Machine → Machine} (hPart : ∀ m, part (g m).cpu = part m.cpu)
    (hAhead : ∀ m j n, g (m.ahead j n) = (g m).ahead j n) : Steady part (modify g : Exec Unit) := by
  refine ⟨hPart, fun m j n => ?_⟩
  rw [modify_apply, modify_apply, hAhead]
  rfl

theorem modifyRegs {g : Registers → Registers}
    (hPart : ∀ c : Cpu, part { c with regs := g c.regs } = part c) :
    Steady part (modifyRegs g) :=
  modify (fun m => hPart m.cpu) fun _ _ _ => rfl

theorem readMem (l : Location) (w : Width) : Steady part (readMem l w) := by
  refine ⟨fun m => congrArg (fun m => part m.cpu) (Reads.readMem l w m), fun m j n => ?_⟩
  have hCheck : Steady part (Exec.check (m.cpu.read m.bus l w)) := check _
  rw [readMem_apply, readMem_apply]
  exact hCheck.ahead_eq m j n

theorem writeMem (l : Location) (w : Width) (v : UInt32) : Steady part (writeMem l w v) := by
  refine cpu (fun c => (check _).bind fun _ => ?_) fun _ _ _ => rfl
  exact modify (fun _ => rfl) fun _ _ _ => rfl

theorem log (e : LogEntry) : Steady part (log e) := modify (fun _ => rfl) fun _ _ _ => rfl

theorem exchange (t : Transaction) : Steady part (exchange t) :=
  modify (fun _ => rfl) fun _ _ _ => rfl

theorem input8 (port : UInt16) : Steady part (input8 port) := by
  refine get (fun m => ?_) fun _ _ _ => rfl
  cases firstAnswer m.devices (·.input8 m.bus.traffic port) with
  | some a => exact (exchange _).bind fun _ => pure _
  | none => exact (log _).bind fun _ => pure _

theorem input16 (port : UInt16) : Steady part (input16 port) := by
  refine get (fun m => ?_) fun _ _ _ => rfl
  cases firstAnswer m.devices (·.input16 m.bus.traffic port) with
  | some a => exact (exchange _).bind fun _ => pure _
  | none => exact (input8 _).bind fun _ => (input8 _).bind fun _ => pure _

theorem output8 (port : UInt16) (v : UInt8) : Steady part (output8 port v) := by
  refine get (fun m => ?_) fun _ _ _ => rfl
  cases firstAnswer m.devices (agreement (·.output8 m.bus.traffic port v)) with
  | some a => exact exchange _
  | none => exact log _

theorem output16 (port : UInt16) (v : UInt16) : Steady part (output16 port v) := by
  refine get (fun m => ?_) fun _ _ _ => rfl
  cases firstAnswer m.devices (agreement (·.output16 m.bus.traffic port v)) with
  | some a => exact exchange _
  | none => exact (output8 _ _).bind fun _ => output8 _ _

theorem input (port : UInt16) (w : Width) : Steady part (input port w) := by
  cases w with
  | byte => exact (input8 _).bind fun _ => pure _
  | word => exact (input16 _).bind fun _ => pure _
  | dword => exact (input16 _).bind fun _ => (input16 _).bind fun _ => pure _

theorem output (port : UInt16) (w : Width) (v : UInt32) : Steady part (output port w v) := by
  cases w with
  | byte => exact output8 _ _
  | word => exact output16 _ _
  | dword => exact (output16 _ _).bind fun _ => output16 _ _

theorem compareElements (w : Width) (a b : UInt32) : Steady Cpu.aside (compareElements w a b) :=
  modify (g := fun m => m.withCpu fun c => c.setFlags (Alu.sub w a b c.regs.flags).2)
    (fun _ => rfl) fun _ _ _ => rfl

theorem writeAccumulator (w : Width) (v : UInt32) :
    Steady Cpu.aside (writeRegister (.accumulator w) v) :=
  modify (fun m => m.cpu.aside_writeRegister w v) fun _ _ _ => rfl

theorem background (hx : Steady Cpu.aside x) : Steady Cpu.background x :=
  ⟨fun m => Cpu.background_eq_of_aside (hx.part_eq m), hx.ahead_eq⟩

end Steady

theorem steady_stringWork (op : StringOp) (i : Instruction) :
    Steady Cpu.aside (stringWork op i) := by
  refine .cpu (fun c => ?_) fun _ _ _ => by cases op <;> rfl
  cases op with
  | movs => exact (Steady.readMem _ _).bind fun _ => .writeMem _ _ _
  | cmps =>
    refine (Steady.readMem _ _).bind fun _ => (Steady.readMem _ _).bind fun _ => ?_
    exact .compareElements _ _ _
  | scas => exact (Steady.readMem _ _).bind fun _ => .compareElements _ _ _
  | lods => exact (Steady.readMem _ _).bind fun _ => .writeAccumulator _ _
  | stos => exact .writeMem _ _ _
  | ins => exact (Steady.check _).bind fun _ => (Steady.input _ _).bind fun _ => .writeMem _ _ _
  | outs => exact (Steady.check _).bind fun _ => (Steady.readMem _ _).bind fun _ => .output _ _ _

/-- The registers that a repeated instruction works with are no part of the background. -/
theorem background_write (c : Cpu) (wide : Bool) {r : Gpr} (hr : r = .cx ∨ r = .si ∨ r = .di)
    (v : UInt32) :
    Cpu.background { c with regs := c.regs.write (.ofGpr wide r) v } = c.background := by
  rcases hr with rfl | rfl | rfl <;> cases wide <;> rfl

theorem background_movedIndexes (c : Cpu) (op : StringOp) (i : Instruction) :
    Cpu.background { c with regs := movedIndexes op i c.regs } = c.background := by
  have hMove (g : Registers) {r : Gpr} (hr : r = .si ∨ r = .di) :
      Cpu.background { c with regs := movedIndex i g r } =
        Cpu.background { c with regs := g } :=
    background_write { c with regs := g } i.addr32 (.inr hr) _
  cases op with
  | movs | cmps => exact (hMove _ (.inr rfl)).trans (hMove _ (.inl rfl))
  | lods | outs => exact hMove _ (.inl rfl)
  | scas | stos | ins => exact hMove _ (.inr rfl)

theorem steady_stringElement (op : StringOp) (i : Instruction) :
    Steady Cpu.background (stringElement op i) := by
  rw [stringElement_eq]
  exact (steady_stringWork op i).background.bind fun _ =>
    .modifyRegs fun c => background_movedIndexes c op i

theorem steady_writeCounter (i : Instruction) (v : Registers → UInt32) :
    Steady Cpu.background (modifyRegs fun g => g.write (repeatCounter i) (v g)) :=
  .modifyRegs fun c => background_write c i.addr32 (.inl rfl) _

theorem steady_count :
    Steady Cpu.background (modifyCpu fun c => { c with cycles := c.cycles + 1 }) :=
  .modify (fun _ => rfl) fun m j n => by
    simp only [Machine.withCpu, Machine.ahead, Cpu.ahead, Nat.add_right_comm]

theorem steady_countedElement (op : StringOp) (i : Instruction) :
    Steady Cpu.background (countedElement op i) :=
  (steady_stringElement op i).bind fun _ => (steady_writeCounter i _).bind fun _ => steady_count

theorem steady_repeatElement (mode : RepeatMode) (op : StringOp) (i : Instruction) (n : Nat) :
    Steady Cpu.background (repeatElement mode (stringElement op i) (repeatCounter i) n) := by
  induction n with
  | zero => exact .pure ()
  | succ n ih =>
    refine (steady_stringElement op i).bind fun _ => (steady_writeCounter i fun _ => _).bind
      fun _ => steady_count.bind fun _ => Steady.flags.bind fun f => ?_
    split
    · exact .pure ()
    · exact ih

/-! ### What an element does to the registers -/

variable {op : StringOp} {i : Instruction} {mode : RepeatMode} {m m₁ m' : Machine} {s : Stop}

theorem read_movedIndex (i : Instruction) (g : Registers) (r s : Gpr) :
    (movedIndex i g r).read (.ofGpr i.addr32 s) =
      if s = r then wrapOffset i.addr32 (g.read (.ofGpr i.addr32 s) + stringStep g.flags i.size)
      else g.read (.ofGpr i.addr32 s) := by
  rw [movedIndex, Registers.read_write_ofGpr]
  split
  · rename_i hSame
    rw [hSame]
  · rfl

theorem read_foldl_movedIndex (i : Instruction) (s : Gpr) {l : List Gpr} (hl : l.Nodup)
    (g : Registers) :
    (l.foldl (movedIndex i) g).read (.ofGpr i.addr32 s) =
      if s ∈ l then wrapOffset i.addr32 (g.read (.ofGpr i.addr32 s) + stringStep g.flags i.size)
      else g.read (.ofGpr i.addr32 s) := by
  induction l generalizing g with
  | nil => rfl
  | cons r l ih =>
    obtain ⟨hr, hl⟩ := List.nodup_cons.1 hl
    have hFlags : (movedIndex i g r).flags = g.flags := Registers.flags_write ..
    rw [List.foldl_cons, ih hl, hFlags, read_movedIndex]
    by_cases hSame : s = r
    · rw [if_neg (hSame ▸ hr), if_pos hSame, if_pos (List.mem_cons.2 (.inl hSame))]
    · simp only [List.mem_cons, hSame, false_or, if_false]

theorem aside_stringWork (h : stringWork op i m = .ok () m') : m'.cpu.aside = m.cpu.aside := by
  rw [← after_of_ok h]
  exact (steady_stringWork op i).part_eq m

/-- No element touches the counter. -/
theorem counter_stringElement (h : stringElement op i m = .ok () m') :
    m'.cpu.regs.read (repeatCounter i) = m.cpu.regs.read (repeatCounter i) := by
  rw [stringElement_eq] at h
  obtain ⟨_, m₁, hWork, hMove⟩ := bind_eq_ok.1 h
  cases hMove
  have hMoved := read_foldl_movedIndex i .cx op.nodup_indexes m₁.cpu.regs
  rw [if_neg op.cx_not_mem_indexes] at hMoved
  exact hMoved.trans (Cpu.read_of_aside (aside_stringWork hWork) nofun)

/-- The registers after an element has been counted. -/
def countedRegs (op : StringOp) (i : Instruction) (g : Registers) : Registers :=
  let g := movedIndexes op i g
  g.write (repeatCounter i) (g.read (repeatCounter i) - 1)

theorem countedElement_eq (op : StringOp) (i : Instruction) :
    countedElement op i = stringWork op i >>= fun _ =>
      modifyCpu fun c => { c with regs := countedRegs op i c.regs, cycles := c.cycles + 1 } := by
  rw [countedElement, stringElement_eq, bind_assoc]
  rfl

theorem read_countedRegs (op : StringOp) (i : Instruction) (g : Registers) (r : Gpr) :
    (countedRegs op i g).read (.ofGpr i.addr32 r) =
      wrapOffset i.addr32 (g.read (.ofGpr i.addr32 r) + elementShift op i g.flags r) := by
  have hMoved (s : Gpr) := read_foldl_movedIndex i s op.nodup_indexes g
  rw [countedRegs, repeatCounter, Registers.read_write_ofGpr, movedIndexes, elementShift]
  split
  · rw [hMoved, if_neg op.cx_not_mem_indexes, UInt32.sub_eq_add_neg, UInt32.zero_sub]
    rename_i hSame
    rw [hSame]
  · rw [hMoved]
    split
    · rfl
    · rw [UInt32.add_zero, Registers.wrapOffset_read]

/-- An element adds its shift to each register, apart from the accumulator. -/
theorem read_countedElement (h : countedElement op i m = .ok () m') {r : Gpr} (hr : r ≠ .ax) :
    m'.cpu.regs.read (.ofGpr i.addr32 r) =
      wrapOffset i.addr32
        (m.cpu.regs.read (.ofGpr i.addr32 r) + elementShift op i m.cpu.regs.flags r) := by
  rw [countedElement_eq] at h
  obtain ⟨_, m₁, hWork, hCount⟩ := bind_eq_ok.1 h
  cases hCount
  have hAside := aside_stringWork hWork
  have hDirection := Cpu.direction_of_background (Cpu.background_eq_of_aside hAside)
  rw [← Cpu.read_of_aside hAside hr, ← elementShift_congr hDirection]
  exact read_countedRegs op i m₁.cpu.regs r

/-- An element leaves the direction flag alone. -/
theorem direction_countedElement (h : countedElement op i m = .ok () m') :
    m'.cpu.regs.flags.direction = m.cpu.regs.flags.direction := by
  refine Cpu.direction_of_background ?_
  rw [← after_of_ok h]
  exact (steady_countedElement op i).part_eq m

/-- The number of elements that the counter asks for. -/
def due (i : Instruction) (m : Machine) : Nat := (m.cpu.regs.read (repeatCounter i)).toNat

/-- An element takes one from the counter. -/
theorem due_countedElement (h : countedElement op i m = .ok () m') {n : Nat}
    (hn : due i m = n + 1) : due i m' = n := by
  rw [due, repeatCounter] at hn ⊢
  rw [read_countedElement h (r := .cx) nofun, elementShift, if_pos rfl, UInt32.zero_sub,
    ← UInt32.sub_eq_add_neg]
  exact toNat_wrapOffset_pred (Registers.wrapOffset_read ..) hn

/-! ### Elements that stop -/

theorem atomic_stringWork (hPort : op.usesPort = false) (i : Instruction) :
    Atomic (stringWork op i) := by
  refine .after_reads .cpu fun c => ?_
  cases op with
  | movs => exact .after_reads (.readMem _ _) fun _ => .writeMem _ _ _
  | cmps =>
    exact .after_reads (.readMem _ _) fun _ => .after_reads (.readMem _ _) fun _ => .modify _
  | scas => exact .after_reads (.readMem _ _) fun _ => .modify _
  | lods => exact .after_reads (.readMem _ _) fun _ => .modify _
  | stos => exact .writeMem _ _ _
  | ins | outs => cases hPort

theorem atomic_countedElement (hPort : op.usesPort = false) (i : Instruction) :
    Atomic (countedElement op i) := by
  rw [countedElement_eq]
  exact (atomic_stringWork hPort i).before_modifyCpu _

/-! ### Runs of elements -/

/-- `k` elements complete, and the zero flag ends the repeat after none of them. -/
inductive Passes (mode : RepeatMode) (op : StringOp) (i : Instruction) :
    Nat → Machine → Machine → Prop
  | none (m : Machine) : Passes mode op i 0 m m
  | next {k : Nat} {m m₁ m' : Machine} (hElement : countedElement op i m = .ok () m₁)
      (hGoesOn : repeatEnds mode m₁.cpu.regs.flags.zero = false)
      (hRest : Passes mode op i k m₁ m') : Passes mode op i (k + 1) m m'

/-- How an instruction ends that has come to a machine with so many elements left. -/
inductive Finishes (mode : RepeatMode) (op : StringOp) (i : Instruction) (m : Machine) :
    Nat → EStateM.Result Stop Machine Unit → Prop
  /-- The counter has run out. -/
  | counted : Finishes mode op i m 0 (.ok () m)
  /-- The zero flag ends the repeat after one more element. -/
  | zeroFlag {n : Nat} {m' : Machine} (hElement : countedElement op i m = .ok () m')
      (hEnd : repeatEnds mode m'.cpu.regs.flags.zero = true) :
      Finishes mode op i m (n + 1) (.ok () m')
  /-- The next element stops. -/
  | stopped {n : Nat} {s : Stop} {m' : Machine}
      (hElement : countedElement op i m = .error s m') :
      Finishes mode op i m (n + 1) (.error s m')

theorem pred_counter {n : Nat} (hn : due i m = n + 1) :
    m.cpu.regs.read (repeatCounter i) - 1 = UInt32.ofNat n := by
  rw [← UInt32.ofNat_toNat (x := m.cpu.regs.read (repeatCounter i)), ← due, hn, UInt32.ofNat_add]
  exact UInt32.add_sub_cancel (UInt32.ofNat n) 1

/-- The loop counts down by itself; the counter register says the same. -/
theorem repeatElement_succ {n : Nat} (hn : due i m = n + 1) :
    repeatElement mode (stringElement op i) (repeatCounter i) (n + 1) m =
      (do
        countedElement op i
        unless repeatEnds mode (← flags).zero do
          repeatElement mode (stringElement op i) (repeatCounter i) n) m := by
  rw [repeatElement, countedElement, bind_assoc]
  cases h : stringElement op i m with
  | error s m₁ => rw [bind_of_error h, bind_of_error h]
  | ok _ m₁ =>
    -- The element has left the counter alone, so both loops write the same count.
    let m₂ := m₁.withCpu (·.writeRegister (repeatCounter i) (UInt32.ofNat n))
    have hWrite :
        modifyRegs (fun g => g.write (repeatCounter i) (g.read (repeatCounter i) - 1)) m₁ =
          .ok () m₂ := by
      rw [modifyRegs, modifyCpu_apply, Machine.withCpu, counter_stringElement h, pred_counter hn]
      rfl
    have hCount : writeRegister (repeatCounter i) (UInt32.ofNat n) m₁ = .ok () m₂ := rfl
    rw [bind_of_ok h, bind_of_ok h, bind_assoc, bind_of_ok hWrite, bind_of_ok hCount]

/-- After an element the zero flag decides whether the loop goes on. -/
theorem repeatElement_of_ok {n : Nat} (hn : due i m = n + 1)
    (h : countedElement op i m = .ok () m₁) :
    repeatElement mode (stringElement op i) (repeatCounter i) (n + 1) m =
      if repeatEnds mode m₁.cpu.regs.flags.zero then .ok () m₁
      else repeatElement mode (stringElement op i) (repeatCounter i) n m₁ := by
  rw [repeatElement_succ hn, bind_of_ok h, bind_of_ok (flags_apply m₁)]
  split <;> rfl

/-- **The loop runs elements until the counter runs out, the zero flag ends it or one stops.** -/
theorem repeatElement_finishes (mode : RepeatMode) (op : StringOp) {n : Nat} (hn : due i m = n) :
    ∃ k ≤ n, ∃ m₁, Passes mode op i k m m₁ ∧
      Finishes mode op i m₁ (n - k)
        (repeatElement mode (stringElement op i) (repeatCounter i) n m) := by
  -- The first element decides, unless it completes and lets the loop go on from its machine.
  induction n generalizing m with
  | zero => exact ⟨0, Nat.le_refl 0, m, .none m, .counted⟩
  | succ n ih =>
    cases h : countedElement op i m with
    | error s m' =>
      rw [repeatElement_succ hn, bind_of_error h]
      exact ⟨0, Nat.zero_le _, m, .none m, .stopped h⟩
    | ok _ m₁ =>
      rw [repeatElement_of_ok hn h]
      split
      · rename_i hEnd
        exact ⟨0, Nat.zero_le _, m, .none m, .zeroFlag h hEnd⟩
      · rename_i hGoesOn
        obtain ⟨k, hk, m₂, hPasses, hFinish⟩ := ih (due_countedElement h hn)
        refine ⟨k + 1, Nat.succ_le_succ hk, m₂, ?_, ?_⟩
        · exact .next h (Bool.eq_false_iff.2 hGoesOn) hPasses
        · rwa [Nat.succ_sub_succ]

namespace Passes

variable {k : Nat}

theorem background_eq (h : Passes mode op i k m m') : m'.cpu.background = m.cpu.background := by
  induction h with
  | none => rfl
  | next hElement _ _ ih =>
    rw [ih, ← after_of_ok hElement]
    exact (steady_countedElement op i).part_eq _

/-- The counter says how many elements are left. -/
theorem due_eq (h : Passes mode op i k m m') (hk : k ≤ due i m) : due i m' = due i m - k := by
  induction h with
  | none => rfl
  | @next k m m₁ m' hElement _ _ ih =>
    have hFirst : due i m₁ = due i m - 1 := due_countedElement hElement (by omega)
    rw [ih (by omega), hFirst]
    omega

/-- A run of elements adds the shifts of all of them. -/
theorem read_eq (h : Passes mode op i k m m') {r : Gpr} (hr : r ≠ .ax) :
    m'.cpu.regs.read (.ofGpr i.addr32 r) =
      wrapOffset i.addr32 (m.cpu.regs.read (.ofGpr i.addr32 r) +
        UInt32.ofNat k * elementShift op i m.cpu.regs.flags r) := by
  induction h with
  | none m =>
    rw [show UInt32.ofNat 0 = 0 from rfl, UInt32.zero_mul, UInt32.add_zero,
      Registers.wrapOffset_read]
  | @next k m m₁ m' hElement _ _ ih =>
    have hShift : elementShift op i m₁.cpu.regs.flags r = elementShift op i m.cpu.regs.flags r :=
      elementShift_congr (direction_countedElement hElement)
    rw [ih, hShift, read_countedElement hElement hr, wrapOffset_add, ofNat_succ_mul,
      UInt32.add_comm (UInt32.ofNat k * _), UInt32.add_assoc]

/-- The loop goes on from where a run of elements has come to. -/
theorem repeatElement_eq (h : Passes mode op i k m m') {n : Nat} (hk : k ≤ n)
    (hn : due i m = n) :
    repeatElement mode (stringElement op i) (repeatCounter i) n m =
      repeatElement mode (stringElement op i) (repeatCounter i) (n - k) m' := by
  induction h generalizing n with
  | none => rfl
  | @next k m m₁ m' hElement hGoesOn _ ih =>
    obtain ⟨n, rfl⟩ : ∃ l, n = l + 1 := ⟨n - 1, by omega⟩
    rw [repeatElement_of_ok hn hElement, hGoesOn, if_neg Bool.false_ne_true,
      ih (Nat.le_of_succ_le_succ hk) (due_countedElement hElement hn), Nat.succ_sub_succ]

end Passes

/-! ### Repeated instructions -/

theorem perform_eq_repeatElement (hOp : i.operation = .string op) (hRep : i.rep = some mode)
    (m : Machine) :
    perform i m = repeatElement mode (stringElement op i) (repeatCounter i) (due i m) m := by
  have hOnce : once i = stringElement op i := by rw [once, hOp]
  rw [perform, hRep]
  change repeated mode (once i) i m = _
  rw [hOnce]
  exact bind_of_ok (regs_apply m)

/-- **A repeated instruction is its elements, one after the other.** With nothing to do it does
nothing. It ends when the counter has run out, when the zero flag ends the repeat after an element,
or when an element stops; an element that does not go to a port leaves the machine alone then, so
the instruction stops where the elements before it have come to. There the counter says how many
elements are left, and every register but the accumulator has moved by what the elements add to it.
The instruction goes on from there as it would have from the start, also after it has been taken
back and begins again, which counts as one more instruction. -/
theorem perform_repeated (hOp : i.operation = .string op) (hRep : i.rep = some mode)
    (m : Machine) :
    (due i m = 0 → perform i m = .ok () m) ∧
      (∃ k ≤ due i m, ∃ m₁, Passes mode op i k m m₁ ∧
        Finishes mode op i m₁ (due i m - k) (perform i m) ∧
        (op.usesPort = false → ∀ s m', perform i m = .error s m' → m' = m₁)) ∧
      ∀ k ≤ due i m, ∀ m₁, Passes mode op i k m m₁ →
        due i m₁ = due i m - k ∧
        (∀ r ≠ .ax, m₁.cpu.regs.read (.ofGpr i.addr32 r) =
          wrapOffset i.addr32 (m.cpu.regs.read (.ofGpr i.addr32 r) +
            UInt32.ofNat k * elementShift op i m.cpu.regs.flags r)) ∧
        perform i m = perform i m₁ ∧
        ∀ start : Cpu, m.cpu = start.begin i →
          m₁.cpu.restore start.snapshot = m₁.cpu.setEip start.regs.eip ∧
          perform i (m₁.withCpu fun c => (c.restore start.snapshot).begin i) =
            onMachine (·.ahead 1 1) (perform i m₁) := by
  have hPerform := perform_eq_repeatElement hOp hRep
  refine ⟨fun hZero => ?_, ?_, fun k hk m₁ hPasses => ⟨hPasses.due_eq hk, ?_, ?_, ?_⟩⟩
  · rw [hPerform, hZero]
    rfl
  · rw [hPerform]
    obtain ⟨k, hk, m₁, hPasses, hFinish⟩ := repeatElement_finishes mode op (i := i) (m := m) rfl
    refine ⟨k, hk, m₁, hPasses, hFinish, fun hPort s m' hStop => ?_⟩
    rw [hStop] at hFinish
    generalize due i m - k = left at hFinish
    cases hFinish with
    | stopped hElement => exact atomic_countedElement hPort i m₁ s m' hElement
  · exact fun r hr => hPasses.read_eq hr
  · rw [hPerform, hPerform, hPasses.due_eq hk]
    exact hPasses.repeatElement_eq hk rfl
  · -- Taken back and begun again, the processor differs only in its counts.
    intro start hStart
    have hBackground : m₁.cpu.background = (start.begin i).background :=
      hPasses.background_eq.trans (congrArg Cpu.background hStart)
    refine ⟨Cpu.restore_of_background hBackground, ?_⟩
    have hAhead : (m₁.withCpu fun c => (c.restore start.snapshot).begin i) = m₁.ahead 1 1 :=
      congrArg (fun c => { m₁ with cpu := c }) (Cpu.begin_of_background hBackground)
    rw [hAhead, hPerform, hPerform]
    exact (steady_repeatElement mode op i (due i m₁)).ahead_eq m₁ 1 1

/-- REP MOVSB. -/
def copyBytes : Instruction :=
  { operation := .string .movs, size := .byte, rep := some .rep, length := 2 }

/-- Protected mode with three bytes to copy into a segment of one byte. -/
def copyStart : Cpu :=
  { regs :=
      { ({} : Registers).writeControl .zero Cpu.protectionBit with
        gprs := { ecx := 3, esi := 8 } }
    caches :=
      (SegMap.replicate { limit := 0xFFFF, access := 0x92 }).set .es { access := 0x92 } }

def copyMachine : Machine := { cpu := copyStart.begin copyBytes, bus := { ram := ⟨.empty⟩ } }

/-- The machine after the first of them. -/
def copiedMachine : Machine := after (countedElement .movs copyBytes) copyMachine

theorem perform_repeated_movs :
    perform copyBytes copyMachine = .error (.fault (.generalProtection 0)) copiedMachine ∧
      due copyBytes copiedMachine = 2 ∧ copiedMachine.cpu.regs.read (.word .si) = 9 ∧
      perform copyBytes (copiedMachine.withCpu fun c =>
          (c.restore copyStart.snapshot).begin copyBytes) =
        .error (.fault (.generalProtection 0)) (copiedMachine.ahead 1 1) := by
  have hElement : countedElement .movs copyBytes copyMachine = .ok () copiedMachine := rfl
  have hRefused : countedElement .movs copyBytes copiedMachine =
      .error (.fault (.generalProtection 0)) copiedMachine := rfl
  have hPasses : Passes .rep .movs copyBytes 1 copyMachine copiedMachine :=
    .next hElement rfl (.none copiedMachine)
  have hOp : copyBytes.operation = .string .movs := rfl
  have hRep : copyBytes.rep = some .rep := rfl
  obtain ⟨-, -, hRuns⟩ := perform_repeated hOp hRep copyMachine
  obtain ⟨hDue, hRead, hSame, hAgain⟩ := hRuns 1 (by decide) copiedMachine hPasses
  have hLeft : due copyBytes copiedMachine = 2 := hDue.trans rfl
  have hStopped : perform copyBytes copiedMachine =
      .error (.fault (.generalProtection 0)) copiedMachine := by
    rw [perform_eq_repeatElement hOp hRep, hLeft, repeatElement_succ hLeft, bind_of_error hRefused]
  refine ⟨hSame.trans hStopped, hLeft, hRead .si nofun, ?_⟩
  rw [(hAgain copyStart rfl).2, hStopped]
  rfl

end Exec

end X86
