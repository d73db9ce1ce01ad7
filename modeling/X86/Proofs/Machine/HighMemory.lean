import X86.Proofs.Cpu.Reach
import X86.Proofs.Machine.Progress
import X86.Proofs.Memory.High

/-!
# A narrow machine behind a closed gate

While the A20 gate is closed a machine with 16-bit registers reaches the first MiB only: two machines
that differ in high memory alone make the same steps.

* `Cpu.Narrow.loadBytes_withHigh`, `Cpu.Narrow.storeBytes_withHigh`, `Cpu.Narrow.code_withHigh`: data
  and code.
* `Exec.Composed.blind`: **a derived computation does not see high memory.**
* `Machine.Ready.exists_blind_step`: a step does not see it either.
-/

namespace X86

/-! ### Accesses -/

namespace Cpu.Narrow

variable {c : Cpu} {b : Bus} {l : Location} (high : Nat → UInt8) (hc : c.Narrow)
  (hGate : b.a20 = false)

include hc hGate

theorem loadBytes_withHigh (hl : l.wide = false) (w : Width) :
    c.loadBytes (b.withHigh high) l w = c.loadBytes b l w := by
  have hByte (i : Nat) : (b.withHigh high).read8 (c.byteAddress l i) =
      b.read8 (c.byteAddress l i) :=
    Bus.read8_withHigh high (Bus.physical_lt hGate (hc.toNat_byteAddress_lt hl i))
  exact congrArg UInt32.ofNat (joinLittle_congr fun i _ => hByte i)

/-- The bytes of a value leave high memory and the gate alone. -/
theorem storeBytes_withHigh (hl : l.wide = false) (v : UInt32) (n : Nat) :
    c.storeBytes (b.withHigh high) l v n = (c.storeBytes b l v n).withHigh high ∧
      (c.storeBytes b l v n).a20 = false := by
  induction n with
  | zero => exact ⟨rfl, hGate⟩
  | succ n ih =>
    obtain ⟨hStored, hClosed⟩ := ih
    rw [storeBytes_succ, storeBytes_succ, hStored, Bus.a20_write8]
    refine ⟨Bus.write8_withHigh high ?_ _, hClosed⟩
    exact Bus.physical_lt hClosed (hc.toNat_byteAddress_lt hl n)

theorem code_withHigh : c.code (b.withHigh high) = c.code b := by
  have hByte (n : Nat) :
      (b.withHigh high).read8 (c.segmentBase .cs + Code.offsetOf c.regs.eip c.code32 n) =
        b.read8 (c.segmentBase .cs + Code.offsetOf c.regs.eip c.code32 n) :=
    Bus.read8_withHigh high (Bus.physical_lt hGate (hc.toNat_codeAddress_lt n))
  simp only [code, Code.ofBus, hByte]

end Cpu.Narrow

theorem Bus.readVector_withHigh {b : Bus} (high : Nat → UInt8) (hGate : b.a20 = false)
    (v : UInt8) : (b.withHigh high).readVector 0 v = b.readVector 0 v :=
  readVector_congr fun _ hi => read8_withHigh high (physical_lt hGate (toNat_vectorByte_lt v hi))

/-! ### Machines -/

/-- The machine with other bytes in memory from 1 MiB on. -/
def Machine.withHigh (m : Machine) (high : Nat → UInt8) : Machine :=
  { m with bus := m.bus.withHigh high }

/-- Behind a closed gate the device neither sees high memory nor changes it, and it leaves the gate
closed. -/
def Device.Ignores (high : Nat → UInt8) (d : Device) : Prop :=
  ∀ vector cpu bus, bus.a20 = false →
    d.serve vector cpu (bus.withHigh high) =
        { d.serve vector cpu bus with bus := (d.serve vector cpu bus).bus.withHigh high } ∧
      (d.serve vector cpu bus).bus.a20 = false

/-- The gate is closed and no device sees high memory. -/
structure Machine.Shuttered (high : Nat → UInt8) (m : Machine) : Prop where
  gate : m.bus.a20 = false
  devices : ∀ d ∈ m.devices, d.Ignores high

namespace Exec

variable {α β : Type} {high : Nat → UInt8} {x : Exec α} {f : α → Exec β} {m m' : Machine}

/-- The run goes the same way whatever high memory holds, and leaves it and the gate alone. -/
def Blind (high : Nat → UInt8) (x : Exec α) (m : Machine) : Prop :=
  (∃ a m', x m = .ok a m' ∧ x (m.withHigh high) = .ok a (m'.withHigh high) ∧
      m'.Shuttered high) ∨
    ∃ s m', x m = .error s m' ∧ x (m.withHigh high) = .error s (m'.withHigh high) ∧
      m'.Shuttered high

namespace Blind

theorem of_ok {a : α} (h : x m = .ok a m')
    (hHigh : x (m.withHigh high) = .ok a (m'.withHigh high)) (hm : m'.Shuttered high) :
    Blind high x m :=
  .inl ⟨a, m', h, hHigh, hm⟩

theorem of_error {s : Stop} (h : x m = .error s m')
    (hHigh : x (m.withHigh high) = .error s (m'.withHigh high)) (hm : m'.Shuttered high) :
    Blind high x m :=
  .inr ⟨s, m', h, hHigh, hm⟩

theorem apply {a : α} (hx : Blind high x m) (h : x m = .ok a m') :
    x (m.withHigh high) = .ok a (m'.withHigh high) ∧ m'.Shuttered high := by
  rcases hx with ⟨_, _, hx, hHigh, hm⟩ | ⟨_, _, hx, -, -⟩
  · cases h.symm.trans hx
    exact ⟨hHigh, hm⟩
  · cases h.symm.trans hx

/-- A run that goes on as another one, with and without other high memory. -/
theorem goes {y : Exec α} {m₁ : Machine} (h : x m = y m₁)
    (hHigh : x (m.withHigh high) = y (m₁.withHigh high)) (hy : Blind high y m₁) :
    Blind high x m := by
  rw [Blind, h, hHigh]
  exact hy

theorem bind (hx : Blind high x m)
    (hf : ∀ a m', x m = .ok a m' → m'.Shuttered high → Blind high (f a) m') :
    Blind high (x >>= f) m := by
  rcases hx with ⟨a, m₁, hx, hHigh, hm⟩ | ⟨s, m₁, hx, hHigh, hm⟩
  · rcases hf a m₁ hx hm with ⟨b, m', hf, hHigh', hm'⟩ | ⟨s, m', hf, hHigh', hm'⟩
    · exact .of_ok ((bind_of_ok hx).trans hf) ((bind_of_ok hHigh).trans hHigh') hm'
    · exact .of_error ((bind_of_ok hx).trans hf) ((bind_of_ok hHigh).trans hHigh') hm'
  · exact .of_error (bind_of_error hx) (bind_of_error hHigh) hm

theorem attempt {x : Exec Unit} (hx : Blind high x m) : Blind high (Exec.attempt x) m := by
  rcases hx with ⟨_, m₁, hx, hHigh, hm⟩ | ⟨s, m₁, hx, hHigh, hm⟩
  · exact .of_ok (attempt_eq_none.2 hx) (attempt_eq_none.2 hHigh) hm
  · cases s with
    | fault e => exact .of_ok (attempt_eq_some.2 hx) (attempt_eq_some.2 hHigh) hm
    | violation v =>
      have hPasses {m m₁ : Machine} (h : x m = .error (.violation v) m₁) :
          Exec.attempt x m = .error (.violation v) m₁ := by
        rw [Exec.attempt, h]
      exact .of_error (hPasses hx) (hPasses hHigh) hm

theorem readMem {l : Location} (hm : m.Shuttered high) (hc : m.cpu.Narrow) (hl : l.wide = false)
    (w : Width) : Blind high (Exec.readMem l w) m := by
  refine .of_ok (readMem_of_real hc.real l w) ?_ hm
  exact (readMem_of_real (m := m.withHigh high) hc.real l w).trans
    (congrArg (EStateM.Result.ok · _) (hc.loadBytes_withHigh high hm.gate hl w))

theorem writeMem {l : Location} (hm : m.Shuttered high) (hc : m.cpu.Narrow)
    (hl : l.wide = false) (w : Width) (v : UInt32) : Blind high (Exec.writeMem l w v) m := by
  obtain ⟨hStored, hClosed⟩ := hc.storeBytes_withHigh high hm.gate hl v w.bytes
  refine .of_ok (writeMem_of_real hc.real l w v) ?_ (.mk (by exact hClosed) hm.devices)
  exact (writeMem_of_real (m := m.withHigh high) hc.real l w v).trans
    (congrArg (fun bus => EStateM.Result.ok () { m with bus }) hStored)

theorem serveInterrupt (hm : m.Shuttered high) (vector : UInt8) :
    Blind high (Exec.serveInterrupt vector) m := by
  have hApply := serveInterrupt_apply vector m
  have hHigh := serveInterrupt_apply vector (m.withHigh high)
  have hServer : server (m.withHigh high) vector = server m vector := rfl
  rw [hServer] at hHigh
  cases hFirst : server m vector with
  | none =>
    rw [hFirst] at hApply hHigh
    exact .of_ok hApply hHigh hm
  | some nd =>
    obtain ⟨n, d⟩ := nd
    rw [hFirst] at hApply hHigh
    obtain ⟨hSame, hClosed⟩ := hm.devices d (serves_of_server hFirst).1 vector m.cpu
      (m.bus.record (.service n vector)) hm.gate
    refine .of_ok hApply (hHigh.trans ?_) (.mk hClosed hm.devices)
    have hServed : served (m.withHigh high) n d vector = (served m n d vector).withHigh high :=
      congrArg (fun s : Service => { m with cpu := s.cpu, bus := s.bus
                                            exitRequested := m.exitRequested || s.exit }) hSame
    exact congrArg _ hServed

theorem loadSegment (hm : m.Shuttered high) (hc : m.cpu.Narrow) (s : SegReg)
    (selector : UInt16) : Blind high (Exec.loadSegment s selector) m :=
  .of_ok (loadSegment_of_real hc.real s selector)
    (loadSegment_of_real (m := m.withHigh high) hc.real s selector) ⟨hm.gate, hm.devices⟩

theorem jumpFar (hm : m.Shuttered high) (hc : m.cpu.Narrow) (selector : UInt16) (v : UInt32) :
    Blind high (Exec.jumpFar selector v) m :=
  .of_ok (jumpFar_of_real hc.real selector v)
    (jumpFar_of_real (m := m.withHigh high) hc.real selector v) ⟨hm.gate, hm.devices⟩

theorem readVector (hm : m.Shuttered high) (hc : m.cpu.Narrow) (v : UInt8) :
    Blind high (do let m ← get; return (m.cpu, m.bus.readVector m.cpu.idtr.base v)) m := by
  have hVector : (m.bus.withHigh high).readVector m.cpu.idtr.base v =
      m.bus.readVector m.cpu.idtr.base v := by
    rw [hc.idtr]
    exact Bus.readVector_withHigh high hm.gate v
  exact .of_ok rfl (congrArg (fun p => EStateM.Result.ok (m.cpu, p) (m.withHigh high)) hVector) hm

theorem fetch (hm : m.Shuttered high) (hc : m.cpu.Narrow) : Blind high Exec.fetch m := by
  have hOverflows := overflows_of_le m.bus hc.eip
  have hCode : m.cpu.code (m.bus.withHigh high) = m.cpu.code m.bus := hc.code_withHigh high hm.gate
  refine .of_ok (fetch_eq_ok.2 ⟨hOverflows, rfl, rfl⟩) (fetch_eq_ok.2 ⟨?_, ?_, rfl⟩)
    ⟨hm.gate, hm.devices⟩
  · exact (congrArg Code.overflows hCode).trans hOverflows
  · exact congrArg (decode m.cpu.features) hCode.symm

end Blind

/-- **A derived computation does not see high memory.** -/
theorem Composed.blind {P : Cpu → Prop} {Q : α → Cpu → Prop} (h : Composed false P x Q)
    (hCalm : m.Calm) (hc : m.cpu.Sound false) (hm : m.Shuttered high) (hP : P m.cpu) :
    Blind high x m := by
  -- over the derivation again; that the parts of a sequence start in a sound processor is `ends`
  induction h generalizing m with
  | weaken hx hP' hQ ih => exact ih hCalm hc hm (hP' _ hP)
  | pure a => exact .of_ok rfl rfl hm
  | bind hx hf ihx ihf =>
    refine (ihx hCalm hc hm hP).bind fun a m' hRun hm' => ?_
    obtain ⟨hDrifts, hQ⟩ := (hx.ends hCalm hc hP).apply hRun
    exact ihf a m'.cpu hQ (hDrifts.calm hCalm) (hDrifts.sound hc) hm' hQ
  | fault e => exact .of_error rfl rfl hm
  | attempt hx ih => exact (ih hCalm hc hm hP).attempt
  | look g => exact .of_ok rfl rfl hm
  | move g hg => exact .of_ok rfl rfl ⟨hm.gate, hm.devices⟩
  | log e => exact .of_ok rfl rfl ⟨hm.gate, hm.devices⟩
  | readMem l w hl => exact .readMem hm (hc.narrow rfl) (hl rfl) w
  | writeMem l w v hl => exact .writeMem hm (hc.narrow rfl) (hl rfl) w v
  | ask g => exact .of_ok rfl rfl hm
  | exchange t => exact .of_ok rfl rfl ⟨hm.gate, hm.devices⟩
  | serve vector => exact .serveInterrupt hm vector
  | loadSegment s selector hs hCs => exact .loadSegment hm (hc.narrow rfl) s selector
  | jumpFar selector v => exact .jumpFar hm (hc.narrow rfl) selector v
  | vector v => exact .readVector hm (hc.narrow rfl) v
  | gate v software hw => cases hw
  | fetch => exact .fetch hm (hc.narrow rfl)

/-! ### Steps -/

theorem ticked_withHigh (high : Nat → UInt8) (m : Machine) :
    ticked (m.withHigh high) = (ticked m).withHigh high := by
  rw [ticked, ticked]
  change (if m.countdown = 1 then _ else _) = _
  split <;> rfl

theorem shuttered_ticked (hm : m.Shuttered high) : (ticked m).Shuttered high := by
  rw [ticked]
  split <;> exact ⟨hm.gate, hm.devices⟩

theorem Blind.serviceLines (h : m.Ready false) (hm : m.Shuttered high) :
    Blind high Exec.serviceLines m := by
  have hApply := serviceLines_apply m
  have hHigh := serviceLines_apply (m.withHigh high)
  by_cases hAccepts : (m.irq.any && m.cpu.acceptsInterrupt) = true
  · rw [if_pos hAccepts] at hApply
    rw [if_pos (by exact hAccepts),
      show (m.withHigh high).irq.takeLowest = m.irq.takeLowest from rfl] at hHigh
    cases hLine : m.irq.takeLowest.1 with
    | none =>
      rw [hLine] at hApply hHigh
      exact .of_ok hApply hHigh ⟨hm.gate, hm.devices⟩
    | some line =>
      rw [hLine] at hApply hHigh
      have hWoken := h.drifts (Machine.drifts_woken m)
      exact .goes hApply hHigh ((composed_serveVector (P := fun _ => True) _).blind hWoken.calm
        hWoken.cpu ⟨hm.gate, hm.devices⟩ trivial)
  · rw [if_neg hAccepts] at hApply
    rw [if_neg (by exact hAccepts)] at hHigh
    exact .of_ok hApply hHigh hm

end Exec

namespace Machine

variable {high : Nat → UInt8} {m : Machine}

/-- **While the gate is closed a step of a narrow machine does not see high memory.** -/
theorem Ready.exists_blind_step (h : m.Ready false) (hm : m.Shuttered high) :
    ∃ m', Exec.step m = .ok () m' ∧ Exec.step (m.withHigh high) = .ok () (m'.withHigh high) := by
  obtain ⟨m₁, hExecutes⟩ := h.exists_executes
  have hReady₁ := h.drifts (h.drifts_of_executes hExecutes)
  have hExecutes' : Exec.Executes (m.withHigh high) (m₁.withHigh high) ∧ m₁.Shuttered high := by
    rcases hExecutes with ⟨hHalted, rfl⟩ | ⟨hAwake, hNext⟩
    · exact ⟨.inl ⟨hHalted, rfl⟩, hm⟩
    · obtain ⟨hNext', hm₁⟩ := ((Exec.composed_executeNext (P := fun _ => True)).blind h.calm h.cpu hm
        trivial).apply hNext
      exact ⟨.inr ⟨hAwake, hNext'⟩, hm₁⟩
  have hTick := Exec.tick_of_ne hReady₁.countdown
  have hTick' := Exec.tick_of_ne (m := m₁.withHigh high) hReady₁.countdown
  rw [Exec.ticked_withHigh] at hTick'
  obtain ⟨m', hService, -⟩ := hReady₁.ticked.exists_serviceLines
  obtain ⟨hService', -⟩ := (Exec.Blind.serviceLines hReady₁.ticked
    (Exec.shuttered_ticked hExecutes'.2)).apply hService
  exact ⟨m', Exec.step_eq_ok.2 ⟨m₁, _, hExecutes, hTick, hService⟩,
    Exec.step_eq_ok.2 ⟨_, _, hExecutes'.1, hTick', hService'⟩⟩

end Machine

end X86
