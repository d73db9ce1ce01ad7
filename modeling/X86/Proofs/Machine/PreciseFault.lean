import X86.Proofs.Encoding.Locality
import X86.Proofs.Machine.Spill

/-!
# Precise faults

A snapshot holds the code segment, the instruction pointer and the stack pointer. That is enough to
take the processor back, because an instruction that does not repeat writes nothing else of it
before its last fault. Memory is not taken back, so an instruction that has stored something before
it faults can meet that when it is restarted.

* `Instruction.Spares`: the instruction leaves a byte as it was.
* `Exec.Restarts`: what a restarted instruction finds again.
* `Exec.precise_fault`: **a fault leaves no trace in the visible processor, and in memory only what
  the instruction has spilled.**
* `Exec.callFar_loses_pointer`: CALL FAR can push over its own operand.
-/

namespace X86

/-- The instruction leaves the byte at an address as it was when it faults with `n` bytes pushed.
One that stores nothing before its faults leaves them all. -/
def Instruction.Spares (i : Instruction) (c : Cpu) (b : Bus) (n : Nat) (addr : UInt32) : Prop :=
  i.operation.spills = true →
    b.windowAt (b.physical addr) = none ∧ ¬ i.spilled c b n (b.physical addr)

theorem Instruction.isValid_of_spills {i : Instruction} (h : i.operation.spills = true) :
    i.isValid = true := by
  rw [isValid]
  cases hop : i.operation <;> rw [hop] at h <;> first | rfl | cases h

namespace Exec

variable {i : Instruction} {w : Width} {k : Nat} {m m' : Machine}

theorem Spills.read8_eq (h : Spills i w k m m') {addr : UInt32}
    (hSpared : i.Spares m.cpu m.bus (w.bytes * k) addr) :
    m'.bus.read8 addr = m.bus.read8 addr := by
  cases hop : i.operation.spills with
  | false => rw [h.kept hop]
  | true => exact h.bus.read8_eq (hSpared hop).1 (hSpared hop).2

/-- What an instruction finds when it is restarted after a fault with `n` bytes pushed. Its first
run began with the processor `start`. -/
structure Restarts (f : Features) (i : Instruction) (start : Cpu) (n : Nat) (m m' : Machine) :
    Prop where
  instruction : decode f (start.code m.bus) = i →
    (∀ j < i.length, i.Spares m.cpu m.bus n
      (start.segmentBase .cs + Code.offsetOf start.regs.eip start.code32 j)) →
    decode f ((m'.cpu.restore start.snapshot).code m'.bus) = i
  places : ∀ o wide,
    ((m'.cpu.restore start.snapshot).begin i).resolve o wide = m.cpu.resolve o wide
  values : ∀ p w,
    (∀ l, p = .mem l → ∀ j < w.bytes, i.Spares m.cpu m.bus n (m.cpu.byteAddress l j)) →
    ((m'.cpu.restore start.snapshot).begin i).readPlace m'.bus p w = m.cpu.readPlace m.bus p w

theorem Spills.restarts {f : Features} {start : Cpu} (h : Spills i w k m m')
    (hStart : m.cpu = start.begin i)
    (hVisible : (m'.cpu.restore start.snapshot).visible = start.visible) :
    Restarts f i start (w.bytes * k) m m' := by
  have hBegin : ((m'.cpu.restore start.snapshot).begin i).visible = m.cpu.visible := by
    rw [hStart]
    exact Cpu.eq_of_visible (f := fun c => (c.begin i).visible) (fun _ => rfl) hVisible
  refine ⟨fun hDecode hSpared => ?_, fun o wide => ?_, fun p v hSpared => ?_⟩
  · rw [Cpu.eq_of_visible (f := (·.code m'.bus)) (fun _ => rfl) hVisible]
    cases hop : i.operation.spills with
    | false => rw [h.kept hop, hDecode]
    | true =>
      have hAgree : (start.code m.bus).AgreesOn (start.code m'.bus) 0 i.length :=
        ⟨rfl, rfl, fun j _ hj => h.read8_eq (hSpared j hj)⟩
      rw [← hDecode] at hAgree hop ⊢
      exact Decoder.decode_eq_of_valid (Instruction.isValid_of_spills hop) hAgree
  · exact Cpu.eq_of_visible (f := (·.resolve o wide)) (fun _ => rfl) hBegin
  · rw [Cpu.eq_of_visible (f := (·.readPlace m'.bus p v)) (fun _ => rfl) hBegin]
    cases p with
    | mem l =>
      have hBytes : m.cpu.loadBytes m'.bus l v = m.cpu.loadBytes m.bus l v :=
        congrArg UInt32.ofNat (joinLittle_congr fun j hj => h.read8_eq (hSpared l rfl j hj))
      rw [Cpu.readPlace, Cpu.readPlace, Cpu.read_eq, Cpu.read_eq, hBytes]
    | reg _ | value _ | nowhere => rfl

/-- **A fault leaves no trace in the visible processor.** Taken back to the snapshot from before the
instruction was fetched, the processor is what it was then; the fault is delivered from there, and
a handler that is entered there finds the place of the instruction, prefixes included. **In memory
the fault leaves what the instruction has spilled**; restarted, the instruction finds its operands
again as far as they are not among that. -/
theorem precise_fault {f : Features} {code : Code} {start : Cpu} {m m' : Machine} {e : Exception}
    (hRep : (decode f code).rep = none) (hStart : m.cpu = start.begin (decode f code))
    (hFault : perform (decode f code) m = .error (.fault e) m') (hTrap : e.isTrap = false) :
    (m'.cpu.restore start.snapshot).visible = start.visible ∧
      (∀ stepping, raise e start.snapshot stepping m' =
        (deliver e start.snapshot >>= fun _ => pure ())
          (m'.withCpu (·.restore start.snapshot))) ∧
      (∀ vector errorCode software m₁ m₂, m₁.cpu = m'.cpu.restore start.snapshot →
        interrupt vector errorCode software m₁ = .ok () m₂ →
        PushesFrame start.returnFrame m₁ m₂) ∧
      ∃ w k, Spills (decode f code) w k m m' ∧
        Restarts f (decode f code) start (w.bytes * k) m m' := by
  have hWell := decode_wellFormed f code
  rw [perform, hRep] at hFault
  have hVisible : (m'.cpu.restore start.snapshot).visible = start.visible := by
    rw [(reverts_of_fault hWell hFault).evolves.visible_restore_eq start.snapshot, hStart]
    exact start.restore_begin_snapshot _
  refine ⟨hVisible, fun stepping => raise_fault hTrap start.snapshot stepping m', ?_, ?_⟩
  · intro vector errorCode software m₁ m₂ hCpu hEnter
    rw [← Cpu.eq_of_visible (f := Cpu.returnFrame) (fun _ => rfl) hVisible, ← hCpu]
    exact pushesFrame_interrupt hEnter
  · obtain ⟨w, k, hSpills⟩ := spills_of_fault hWell hFault
    exact ⟨w, k, hSpills, hSpills.restarts hStart hVisible⟩

/-- LEAVE in protected mode with a stack segment of one byte: the stack pointer has moved when the
pop faults. -/
def leaveCode : Code := { byteAt := fun _ => 0xC9, start := 0x100, wide := false }

def leaveStart : Cpu :=
  { model := .i80386
    regs := { ({} : Registers).writeControl .zero Cpu.protectionBit with
      eip := 0x100, gprs := { esp := 0x20, ebp := 0x40 } }
    caches := (SegMap.replicate (Descriptor.realMode 0)).set .ss { access := 0x92 } }

def leaveMachine : Machine :=
  { cpu := leaveStart.begin (decode leaveStart.features leaveCode), bus := { ram := ⟨.empty⟩ } }

theorem precise_fault_leave :
    (decode leaveStart.features leaveCode).operation = .leave ∧
      perform (decode leaveStart.features leaveCode) leaveMachine =
        .error (.fault (.stackFault 0)) (leaveMachine.withCpu (·.setStackPointer 0x40)) ∧
      ((leaveMachine.withCpu (·.setStackPointer 0x40)).cpu.restore leaveStart.snapshot).visible =
        leaveStart.visible := by
  have hFault : perform (decode leaveStart.features leaveCode) leaveMachine =
      .error (.fault (.stackFault 0)) (leaveMachine.withCpu (·.setStackPointer 0x40)) := by
    rw [show decode leaveStart.features leaveCode = { operation := .leave, length := 1 } by decide]
    rfl
  exact ⟨by decide, hFault, (precise_fault (by decide) rfl hFault rfl).1⟩

/-- The next instruction is a far call through the pointer directly below the stack pointer. The
pointer names a selector behind the end of the table. -/
def pointerMachine : Machine :=
  (tableMachine .i80386 [0, 3, 0x10, 0, 0xFF, 0x1E, 0, 0]).withCpu fun c => (c.setEip 4).withEsp 4

def pointerCall : Instruction :=
  { operation := .callFar, dst := .mem .word (some .ds) (.direct 0), length := 4 }

/-- CALL FAR pushes its return address before it looks at the selector. Here the return address lies
over the pointer, and a restarted CALL FAR goes where that points. -/
theorem callFar_loses_pointer :
    let start := pointerMachine.cpu
    let m := pointerMachine.withCpu (·.begin pointerCall)
    let m' := after (perform pointerCall) m
    let restarted := m'.withCpu fun c => (c.restore start.snapshot).begin pointerCall
    decode start.features (start.code pointerMachine.bus) = pointerCall ∧
      pointerCall.rep = none ∧
      perform pointerCall m = .error (.fault (.generalProtection 0x10)) m' ∧
      (m'.cpu.restore start.snapshot).visible = start.visible ∧
      decode start.features ((m'.cpu.restore start.snapshot).code m'.bus) = pointerCall ∧
      readPlace (m.cpu.resolve pointerCall.dst false) .word m = .ok 0x300 m ∧
      readPlace (m.cpu.resolve pointerCall.dst false) .word restarted = .ok 8 restarted ∧
      perform pointerCall restarted = .ok () (after (perform pointerCall) restarted) :=
  ⟨by decide +kernel, rfl, rfl, rfl, by decide +kernel, rfl, rfl, rfl⟩

end Exec

end X86
