import X86.Proofs.Machine.Return
import X86.Proofs.Machine.Run
import X86.Proofs.Memory.Vector

/-!
# Unused vectors

A prepared machine sends all vectors to a lone IRET at the top of the first megabyte. The IRET is
there only if memory reaches that far, which takes 960 KiB; a smaller machine finds 0xFF in its
place. Where the IRET is, an interrupt that nobody serves does no harm.

* `Machine.installStub_table`: all vectors lead to the stub.
* `Machine.read8_installStub`: what is there.
* `unserved_interrupt`: **with 960 KiB an unserved INT and the instruction at its handler leave all
  registers and flags as they were.**
-/

namespace X86

/-! ### The prepared machine -/

namespace Machine

variable (s : Settings)

theorem size_ofSettings : (ofSettings s).bus.ram.size = s.memoryKb * 1024 + 0x10000 :=
  Ram.size_zeros _

/-- The table lies in the first KiB, and all vectors lead to the stub. -/
theorem installStub_table :
    Bus.Overwrites (·.toNat < 0x400)
        ((ofSettings s).bus.write8 stubAddress.linear stubOpcode) (ofSettings s).installStub.bus ∧
      ∀ v, (ofSettings s).installStub.bus.readVector 0 v = stubAddress := by
  have hSize : 0x400 ≤ ((ofSettings s).bus.write8 stubAddress.linear stubOpcode).ram.size := by
    rw [Bus.size_write8, size_ofSettings]
    omega
  obtain ⟨b, hFold, hTable, hVectors⟩ := Bus.vectors_written stubAddress hSize (Nat.le_refl 256)
  rw [installStub, hFold]
  refine ⟨hTable, fun v => ?_⟩
  have hVector := hVectors v.toNat v.toNat_lt
  rwa [UInt8.ofNat_toNat] at hVector

theorem size_installStub :
    (ofSettings s).installStub.bus.ram.size = s.memoryKb * 1024 + 0x10000 := by
  rw [(installStub_table s).1.size, Bus.size_write8, size_ofSettings]

/-- The stub is an IRET where memory reaches it, and no instruction elsewhere. -/
theorem read8_installStub :
    (ofSettings s).installStub.bus.read8 stubAddress.linear =
      if 960 ≤ s.memoryKb then stubOpcode else 0xFF := by
  have hAddress : stubAddress.linear.toNat = 0xFFF53 := by decide
  have hPhysical (b : Bus) : b.physical stubAddress.linear = stubAddress.linear :=
    b.physical_of_low (by decide)
  have hAbove : ¬ stubAddress.linear.toNat < 0x400 := by decide
  rw [(installStub_table s).1.read8_eq (by rwa [hPhysical]), Bus.read8_write8 rfl, hPhysical,
    size_ofSettings, hAddress]
  by_cases hLarge : 960 ≤ s.memoryKb
  · rw [if_pos ⟨rfl, by omega⟩, if_pos hLarge]
  · have hBeyond : ¬ stubAddress.linear.toNat < (ofSettings s).bus.ram.size := by
      rw [hAddress, size_ofSettings]
      omega
    rw [if_neg (by omega), if_neg hLarge, Bus.read8_eq rfl, hPhysical, Ram.read]
    exact dif_neg hBeyond

end Machine

/-! ### Calls of the stub -/

open Exec Machine

/-- The machine is about to execute INT `v` in real mode without the trap flag. No device serves
the vector, and there is room for a frame that misses the stub. -/
structure CallsStub (v : UInt8) (m : Machine) : Prop where
  real : m.cpu.protectedMode = false
  code : m.cpu.caches.cs = .realMode (m.cpu.regs.selector .cs)
  eip : m.cpu.regs.eip ≤ 0xFFFF
  trap : m.cpu.regs.flags.trap = false
  table : m.cpu.idtr = .realModeVectors
  operation : (m.cpu.decodeNext m.bus).operation = .int
  vector : (m.cpu.decodeNext m.bus).dst = .imm8 v
  unserved : ∀ d ∈ m.devices, d.serves m.bus.traffic v = false
  backed : ∀ k < 6, m.bus.Backed (m.cpu.stackByte k)
  apart : ∀ k < 6, m.bus.physical (m.cpu.stackByte k) ≠ stubAddress.linear

namespace Exec

variable {m : Machine} {v : UInt8}

theorem serveInterrupt_of_unserved (h : ∀ d ∈ m.devices, d.serves m.bus.traffic v = false) :
    serveInterrupt v m = .ok false m := by
  rw [serveInterrupt_apply]
  cases hServer : server m v with
  | none => rfl
  | some nd =>
    obtain ⟨hMem, hServes⟩ := serves_of_server hServer
    cases (h _ hMem).symm.trans hServes

/-- The lone IRET at the start of a handler. -/
def stubIret : Instruction := { operation := .iret, length := 1 }

theorem decodeNext_stub {c : Cpu} {b : Bus} (hWide : c.code32 = false)
    (h : b.read8 (c.segmentBase .cs + c.regs.eip) = stubOpcode) : c.decodeNext b = stubIret := by
  have hCode : (c.code b).byteAt 0 = 0xCF := (byteAt_code b hWide).trans h
  have hNarrow : (c.code b).wide = false := hWide
  rw [Cpu.decodeNext, Encoding.decode_of_bare .iret .full]
  · rw [hNarrow]
    rfl
  · rw [hCode, hNarrow, Cpu.features]
    cases c.model <;> decide
  · rw [hCode, Cpu.features]
    cases c.model <;> rfl

/-- The machine at the stub after an INT, on which memory is `b`. -/
def atStub (m : Machine) (b : Bus) : Machine :=
  { fetched m (m.cpu.decodeNext m.bus) with
    cpu := (m.cpu.begin (m.cpu.decodeNext m.bus)).entered stubAddress
    bus := b }

theorem executeNext_int (h : CallsStub v m) (hVector : m.bus.readVector 0 v = stubAddress) :
    ∃ b, executeNext m = .ok () (atStub m b) ∧
      Bus.Overwrites (m.cpu.frameBytes m.bus 6) m.bus b ∧
      Interrupted (m.cpu.begin (m.cpu.decodeNext m.bus)) (atStub m b) := by
  let i := m.cpu.decodeNext m.bus
  let m₁ := fetched m i
  have hFetch : fetch m = .ok i m₁ := fetch_eq_ok.2 ⟨overflows_of_le m.bus h.eip, rfl, rfl⟩
  have hTable : 4 * v.toNat + 3 ≤ m₁.cpu.idtr.limit.toNat := by
    have hLimit : m₁.cpu.idtr.limit.toNat = 0x3FF := by
      change m.cpu.idtr.limit.toNat = 0x3FF
      rw [h.table]
      rfl
    have hv := v.toNat_lt
    omega
  have hTarget : m₁.bus.readVector m₁.cpu.idtr.base v = stubAddress := by
    change m.bus.readVector m.cpu.idtr.base v = stubAddress
    rw [h.table]
    exact hVector
  obtain ⟨b, hEnter, hOver, hHolds⟩ := interrupt_apply (m := m₁) none true h.real hTable h.backed
  rw [hTarget] at hEnter
  have hPerform : perform i m₁ = .ok () (atStub m b) := by
    have hString : i.operation.isString = false := by rw [h.operation]; rfl
    have hInt : once i = (do unless ← serveInterrupt v do interrupt v none true) := by
      rw [once, h.operation]
      change int i = _
      rw [int, h.vector]
    have hAsk : serveInterrupt v m₁ = .ok false m₁ := serveInterrupt_of_unserved h.unserved
    exact (congrFun ((perform_of_not_string hString).trans hInt) m₁).trans
      ((bind_of_ok hAsk).trans hEnter)
  refine ⟨b, ?_, hOver, interrupted_of_entered stubAddress hHolds⟩
  exact executeNext_eq_ok.2 ⟨i, m₁, _, hFetch, .inl ⟨hPerform, by rw [h.trap]; rfl⟩⟩

theorem executeNext_stub {c : Cpu} (hReal : c.protectedMode = false)
    (hCs : c.caches.cs = .realMode (c.regs.selector .cs)) (hEip : c.regs.eip ≤ 0xFFFF)
    (hCpu : m.cpu = c.entered stubAddress) (h : Interrupted c m)
    (hStub : m.bus.read8 stubAddress.linear = stubOpcode) :
    executeNext m = .ok () ((fetched m stubIret).withCpu fun c' =>
      (c'.restore c.snapshot).setFlags c.regs.flags) := by
  have hStart : m.cpu.code32 = false ∧
      m.cpu.regs.eip = wrapOffset false stubAddress.offset.toUInt32 ∧
      m.cpu.segmentBase .cs = stubAddress.segment.toUInt32 <<< 4 := by
    rw [hCpu, Cpu.entered_eq]
    exact ⟨rfl, rfl, rfl⟩
  obtain ⟨hWide, hOffset, hBase⟩ := hStart
  have hAddress : m.cpu.segmentBase .cs + m.cpu.regs.eip = stubAddress.linear := by
    rw [hBase, hOffset]
    rfl
  have hDecode : m.cpu.decodeNext m.bus = stubIret :=
    decodeNext_stub hWide (by rw [hAddress]; exact hStub)
  have hFetch : fetch m = .ok stubIret (fetched m stubIret) :=
    fetch_eq_ok.2 ⟨overflows_of_le m.bus (by rw [hOffset]; exact wrapOffset_le _), hDecode.symm, rfl⟩
  have hBegun : Interrupted c (fetched m stubIret) :=
    ⟨h.model, h.control, ⟨h.stack.esp, h.stack.cache⟩, h.flags, h.frame⟩
  have hPerform := iret_of_interrupted hReal hCs hEip hBegun
  have hTrap : m.cpu.regs.flags.trap = false := by rw [h.flags]; rfl
  exact executeNext_eq_ok.2 ⟨stubIret, _, _, hFetch, .inl ⟨hPerform, by rw [hTrap]; rfl⟩⟩

/-- An INT that leads to the stub, and the IRET there, count as two instructions and do nothing else
to the processor. -/
theorem executeNext_int_stub (h : CallsStub v m) (hVector : m.bus.readVector 0 v = stubAddress)
    (hStub : m.bus.read8 stubAddress.linear = stubOpcode) :
    ∃ m₁ m₂, executeNext m = .ok () m₁ ∧ executeNext m₁ = .ok () m₂ ∧
      m₂.cpu = { m.cpu.begin (m.cpu.decodeNext m.bus) with
        instructions := m.cpu.instructions + 2
        cycles := m.cpu.cycles + 2 } ∧
      Bus.Overwrites (m.cpu.frameBytes m.bus 6) m.bus m₂.bus := by
  obtain ⟨b, hInt, hOver, hHandler⟩ := executeNext_int h hVector
  have hStub' : (atStub m b).bus.read8 stubAddress.linear = stubOpcode := by
    refine (hOver.read8_eq ?_).trans hStub
    rintro ⟨k, hk, hSame⟩
    rw [m.bus.physical_of_low (a := stubAddress.linear) (by decide)] at hSame
    exact h.apart k hk hSame.symm
  have hCode : (m.cpu.begin (m.cpu.decodeNext m.bus)).regs.eip ≤ 0xFFFF := by
    have hNarrow : m.cpu.code32 = false := by rw [Cpu.code32, h.code]; rfl
    change wrapOffset m.cpu.code32 _ ≤ 0xFFFF
    rw [hNarrow]
    exact wrapOffset_le _
  have hIret := executeNext_stub (c := m.cpu.begin (m.cpu.decodeNext m.bus)) h.real h.code hCode
    rfl hHandler hStub'
  refine ⟨_, _, hInt, hIret, ?_, hOver⟩
  change (((((m.cpu.begin _).entered stubAddress).begin stubIret).restore _).setFlags _) = _
  rw [Cpu.entered_eq]
  rfl

end Exec

/-- **On a prepared machine with 960 KiB an unserved INT and the instruction at its handler leave
all registers and flags as they were. A smaller machine has no handler there.** -/
theorem unserved_interrupt (s : Settings) :
    let prepared := (ofSettings s).installStub.bus
    (∀ v, prepared.readVector 0 v = stubAddress) ∧
      prepared.read8 stubAddress.linear = (if 960 ≤ s.memoryKb then stubOpcode else 0xFF) ∧
      (960 ≤ s.memoryKb → ∀ m v, CallsStub v m →
        m.bus.readVector 0 v = prepared.readVector 0 v →
        m.bus.read8 stubAddress.linear = prepared.read8 stubAddress.linear →
        ∃ m₁ m₂, executeNext m = .ok () m₁ ∧ executeNext m₁ = .ok () m₂ ∧
          m₂.cpu = { m.cpu.begin (m.cpu.decodeNext m.bus) with
            instructions := m.cpu.instructions + 2
            cycles := m.cpu.cycles + 2 } ∧
          Bus.Overwrites (m.cpu.frameBytes m.bus 6) m.bus m₂.bus) := by
  intro prepared
  obtain ⟨-, hVectors⟩ := installStub_table s
  have hStub := read8_installStub s
  refine ⟨hVectors, hStub, ?_⟩
  intro hLarge m v hCall hVector hByte
  have hOpcode : m.bus.read8 stubAddress.linear = stubOpcode := by
    rw [hByte, hStub, if_pos hLarge]
  exact executeNext_int_stub hCall (hVector.trans (hVectors v)) hOpcode

/-! ### A program that calls the stub -/

theorem decodeNext_int {c : Cpu} {b : Bus} (hWide : c.code32 = false)
    (h : (c.code b).byteAt 0 = 0xCD) :
    (c.decodeNext b).operation = .int ∧ (c.decodeNext b).dst = .imm8 ((c.code b).byteAt 1) := by
  have hNarrow : (c.code b).wide = false := hWide
  have hDecode := Encoding.decode_of_plain (m := c.features) (c := c.code b)
    (l := { operation := .int, size := .byte, dst := .imm .byte })
    (i := { operation := .int, dst := .imm .byte ((c.code b).byteAt 1).toUInt32, size := .byte })
    (by rw [h, hNarrow, Cpu.features]; cases c.model <;> decide)
    (by rw [h, Cpu.features]; cases c.model <;> rfl)
    (by rw [hNarrow]; rfl) (show 2 ≤ maxLength by decide)
  rw [Cpu.decodeNext, hDecode]
  exact ⟨rfl, congrArg Operand.imm8 (UInt8.toUInt8_toUInt32 _)⟩

/-- The default machine, prepared, with INT 21 in it. -/
def caller : Machine :=
  ((ofSettings {}).installStub.placeImage [0xCD, 0x21] programStart).setUpSegments
    programStart.segment

theorem loadCom_caller : (ofSettings {}).installStub.loadCom [0xCD, 0x21] = .ok caller := by
  refine loadCom_eq_ok.2 ⟨?_, rfl⟩
  rw [size_installStub]
  decide

theorem caller_overwrites :
    Bus.Overwrites (fun p => p.toNat = 0x86F0 ∨ p.toNat = 0x86F1) (ofSettings {}).installStub.bus
      caller.bus := by
  have hAddress : ∀ i < 2, (programStart.linear + UInt32.ofNat i).toNat = 0x86F0 + i := by decide
  have hLow (i : Nat) (hi : i < 2) :
      (programStart.linear + UInt32.ofNat i).toNat < 0xA0000 := by
    rw [hAddress i hi]
    omega
  have hBus (m : Machine) (image : List UInt8) (p : FarPointer) (segment : UInt16) :
      ((m.placeImage image p).setUpSegments segment).bus = m.bus.writeBytes p.linear image := rfl
  rw [caller, hBus]
  refine Bus.overwrites_writeBytes [0xCD, 0x21] (fun i hi => ?_) fun i hi => ?_
  · refine Bus.backed_of_low (hLow i hi) ?_
    rw [size_installStub, hAddress i hi]
    exact Nat.lt_of_lt_of_le (Nat.add_lt_add_left hi _) (by decide)
  · rw [Bus.physical_of_low _ (Nat.lt_trans (hLow i hi) (by decide)), hAddress i hi]
    have hTwo : i < 2 := hi
    omega

theorem byteAt_caller {i : Nat} (hi : i < 2) :
    (caller.cpu.code caller.bus).byteAt i = [0xCD, 0x21][i] := by
  have hByte (c : Cpu) (b : Bus) : (c.code b).byteAt i =
      b.read8 (c.segmentBase .cs + Code.offsetOf c.regs.eip c.code32 i) := rfl
  have hAddress : ∀ i < 2, caller.cpu.segmentBase .cs +
      Code.offsetOf caller.cpu.regs.eip caller.cpu.code32 i =
        programStart.linear + UInt32.ofNat i := by decide
  have hWindow : (ofSettings {}).installStub.bus.window = none := by
    rw [(installStub_table {}).1.window_eq, Bus.window_write8]
    rfl
  rw [hByte, hAddress i hi]
  exact read8_of_loadCom loadCom_caller hWindow (by decide) hi

theorem callsStub_caller : CallsStub 0x21 caller := by
  have hStack : ∀ k < 6, (caller.cpu.stackByte k).toNat = 0x185ED - k := by decide
  have hInt := decodeNext_int (c := caller.cpu) (b := caller.bus) rfl
    (byteAt_caller (i := 0) (by decide))
  have hSize : caller.bus.ram.size = 0x110000 := by
    rw [caller_overwrites.size, size_installStub]
    rfl
  refine
    { real := rfl, code := rfl, eip := by decide, trap := rfl, table := rfl
      operation := hInt.1
      vector := by rw [hInt.2, byteAt_caller (by decide)]; rfl
      unserved := fun _ hd => absurd hd List.not_mem_nil
      backed := fun k hk => ?_
      apart := fun k hk => ?_ }
  · refine Bus.backed_of_low ?_ ?_
    · rw [hStack k hk]
      omega
    · rw [hStack k hk, hSize]
      omega
  · intro hSame
    have hEq := congrArg UInt32.toNat hSame
    rw [Bus.physical_of_low _ (by rw [hStack k hk]; omega), hStack k hk] at hEq
    have hStub : stubAddress.linear.toNat = 0xFFF53 := by decide
    omega

theorem unserved_interrupt_caller :
    ∃ m₁ m₂, executeNext caller = .ok () m₁ ∧ executeNext m₁ = .ok () m₂ ∧
      m₂.cpu = { caller.cpu.begin (caller.cpu.decodeNext caller.bus) with
        instructions := caller.cpu.instructions + 2
        cycles := caller.cpu.cycles + 2 } ∧
      Bus.Overwrites (caller.cpu.frameBytes caller.bus 6) caller.bus m₂.bus := by
  have hPhysical {a : UInt32} (hLow : a.toNat < 0x100000) :
      (ofSettings {}).installStub.bus.physical a = a := Bus.physical_of_low _ hLow
  refine (unserved_interrupt {}).2.2 (by decide) caller 0x21 callsStub_caller ?_ ?_
  · refine Bus.readVector_congr fun i hi => caller_overwrites.read8_eq ?_
    have hEntry : (Bus.vectorAddress 0 0x21 + UInt32.ofNat i).toNat = 4 * 0x21 + i :=
      Bus.toNat_vectorAddress_add (by decide) hi
    rw [hPhysical (by omega), hEntry]
    omega
  · refine caller_overwrites.read8_eq ?_
    rw [hPhysical (by decide)]
    decide

end X86
