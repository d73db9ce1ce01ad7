import X86.Proofs.Exec.Composed

/-!
# Entering a handler

The pushes and the new code segment come first, the flags last, so entering a handler is
restartable, except for the memory below the stack pointer and the mark of the code segment.

* `restartable_interrupt`: entering a handler faults before the flags change.
* `pushesFrame_interrupt`: **a handler that has been entered finds the flags, the code segment and
  the instruction pointer of the processor as it was.**
* `composed_interrupt`: entering a handler is composed of moves.
-/

namespace X86

/-! ### The mode -/

/-- Only system instructions and devices change the mode. -/
theorem Evolves.protectedMode_eq {K : ChangeKind → Prop} {m m' : Machine}
    (hSystem : ¬ K .system) (hService : ¬ K .service) (h : Evolves K m m') :
    m'.cpu.protectedMode = m.cpu.protectedMode := by
  have hMode {c c' : Cpu} (hc : c'.regs.control = c.regs.control) :
      c'.protectedMode = c.protectedMode := by
    rw [Cpu.protectedMode, Cpu.cr0, Registers.readControl, hc]
    rfl
  refine Evolves.eq_of_change (fun m => m.cpu.protectedMode) ?_ h
  intro m m' hStep
  refine hMode ?_
  cases hStep with
  | stack v => exact Registers.control_write _ _ _
  | register r v => exact Registers.control_write _ _ _
  | control n v hK => exact absurd hK hSystem
  | debug n v hK => exact absurd hK hSystem
  | table t r hK => exact absurd hK hSystem
  | selector s v hK => exact absurd hK hSystem
  | serve n d vector hK => exact absurd hK hService
  | _ => rfl

/-- What a handler finds on the stack, in the order of the pushes: flags, code segment, instruction
pointer. -/
def Cpu.returnFrame (c : Cpu) : List UInt32 :=
  [c.flagsImage, (c.regs.selector .cs).toUInt32, c.regs.eip]

namespace Exec

variable {K : ChangeKind → Prop} {S : Prop}

/-! ### Interrupts -/

/-- The pushes of a frame leave the mode alone. -/
theorem protectedMode_of_pushList {w : Width} {vs : List UInt32} {m m' : Machine}
    (h : pushList w vs m = .ok () m') : m'.cpu.protectedMode = m.cpu.protectedMode :=
  ((Changes.pushList (K := fun _ => False) w vs).of_ok h).protectedMode_eq id id

theorem pushList_of_real {m : Machine} (hp : m.cpu.protectedMode = false) (w : Width)
    (vs : List UInt32) : ∃ m', pushList w vs m = .ok () m' := by
  induction vs generalizing m with
  | nil => exact ⟨m, rfl⟩
  | cons v vs ih =>
    obtain ⟨m₁, hPush⟩ := push_of_real hp v w
    have hReal : m₁.cpu.protectedMode = false :=
      (((Changes.push (K := fun _ => False) v w).of_ok hPush).protectedMode_eq id id).trans hp
    obtain ⟨m', hRest⟩ := ih hReal
    exact ⟨m', (bind_of_ok hPush).trans hRest⟩

/-- The last part of a real mode interrupt: the flags, then the handler. -/
def enterVector (target : FarPointer) : Exec Unit := do
  modifyCpu fun c => c.setFlags (Cpu.realHandlerFlags c.regs.flags)
  modifyCpu fun c => (c.loadRealSegment .cs target.segment).setEip target.offset.toUInt32

theorem interruptReal_eq (vector : UInt8) (m : Machine) :
    interruptReal vector m =
      if vector.toNat * 4 + 3 > m.cpu.idtr.limit.toNat then .error (.fault (.generalProtection 0)) m
      else (do
        pushList .word m.cpu.returnFrame
        enterVector (m.bus.readVector m.cpu.idtr.base vector)) m := by
  rw [interruptReal, bind_of_ok (get_apply m)]
  by_cases hl : vector.toNat * 4 + 3 > m.cpu.idtr.limit.toNat
  · rw [if_pos hl, if_pos hl, fault_apply]
  · rw [if_neg hl, if_neg hl]
    have hIp : m.cpu.regs.ip.toUInt32 = Width.word.truncate m.cpu.regs.eip := by
      rw [← UInt32.toNat_inj, Width.toNat_truncate]
      exact m.cpu.regs.eip.toNat_toUInt16
    simp only [enterVector, Cpu.returnFrame, pushList, bind_assoc, pure_bind, hIp, push_truncate]

/-- A real mode segment is 16 bits wide, so its handlers are entered by a jump. -/
theorem setEip_eq_jump (c : Cpu) (target : FarPointer) :
    (c.loadRealSegment .cs target.segment).setEip target.offset.toUInt32 =
      (c.loadRealSegment .cs target.segment).jump target.offset.toUInt32 := by
  have hOffset : wrapOffset false target.offset.toUInt32 = target.offset.toUInt32 :=
    Width.truncate_eq_self (w := .word) (by simpa [Width.values] using target.offset.toNat_lt)
  exact (congrArg (Cpu.setEip _) hOffset).symm

theorem enterVector_apply (target : FarPointer) (m : Machine) :
    enterVector target m = .ok () (((m.withCpu fun c =>
      c.setFlags (Cpu.realHandlerFlags c.regs.flags)).withCpu
        (·.loadRealSegment .cs target.segment)).withCpu (·.jump target.offset.toUInt32)) := by
  rw [enterVector, bind_of_ok (modifyCpu_apply _ m), modifyCpu_apply]
  simp only [Machine.withCpu, setEip_eq_jump]

theorem evolves_enterVector (hC : K .code) (hF : K .flags) {m : Machine}
    (hp : m.cpu.protectedMode = false) (target : FarPointer) :
    Evolves K m (after (enterVector target) m) := by
  rw [after_of_ok (enterVector_apply target m)]
  have hFlags := Change.flags (K := K) m (Cpu.realHandlerFlags m.cpu.regs.flags) hF
  have hReal : (m.withCpu fun c =>
      c.setFlags (Cpu.realHandlerFlags c.regs.flags)).cpu.protectedMode = false := hp
  refine (Evolves.single hFlags).trans ?_
  exact (Evolves.single (.realSegment _ .cs target.segment hC hReal)).trans (.single (.jump _ _))

theorem evolves_interruptReal (hC : K .code) (hF : K .flags) (vector : UInt8) {m : Machine}
    (hp : m.cpu.protectedMode = false) : Evolves K m (after (interruptReal vector) m) := by
  rw [after, interruptReal_eq]
  by_cases hl : vector.toNat * 4 + 3 > m.cpu.idtr.limit.toNat
  · rw [if_pos hl]
    exact .refl m
  · rw [if_neg hl]
    refine evolves_bind (Changes.pushList .word m.cpu.returnFrame m) fun _ m₁ h => ?_
    exact evolves_enterVector hC hF ((protectedMode_of_pushList h).trans hp) _

/-- In real mode an interrupt fails only if its vector is outside the table. -/
theorem interruptReal_of_le {m : Machine} (vector : UInt8) (hp : m.cpu.protectedMode = false)
    (hl : vector.toNat * 4 + 3 ≤ m.cpu.idtr.limit.toNat) :
    ∃ m', interruptReal vector m = .ok () m' ∧ m'.cpu.regs.flags.interrupt = false := by
  obtain ⟨m₁, hPush⟩ := pushList_of_real hp .word m.cpu.returnFrame
  obtain ⟨m', hEnter, hMasked⟩ : ∃ m', enterVector (m.bus.readVector m.cpu.idtr.base vector) m₁ =
      .ok () m' ∧ m'.cpu.regs.flags.interrupt = false := ⟨_, enterVector_apply _ m₁, rfl⟩
  refine ⟨m', ?_, hMasked⟩
  rw [interruptReal_eq, if_neg (Nat.not_lt.2 hl)]
  exact (bind_of_ok hPush).trans hEnter

theorem reverts_interruptReal {vector : UInt8} {m m' : Machine} {e : Exception} (hS : S)
    (h : interruptReal vector m = .error (.fault e) m') : Reverts K S m m' := by
  rw [interruptReal_eq] at h
  by_cases hl : vector.toNat * 4 + 3 > m.cpu.idtr.limit.toNat
  · rw [if_pos hl] at h
    cases h
    exact .refl m
  · rw [if_neg hl] at h
    rcases bind_eq_error.1 h with h | ⟨_, m₁, -, h⟩
    · exact ((Changes.pushList .word _).quiet hS).of_error h
    · cases (enterVector_apply _ m₁).symm.trans h

/-- The last part of a protected mode interrupt: the error code, the flags, and the log. -/
def enterGate (vector : UInt8) (errorCode : Option UInt16) (gate : OpenGate) : Exec Unit := do
  match errorCode with
  | some code => push code.toUInt32 (if gate.wide then .dword else .word)
  | none => pure ()
  modifyCpu fun c => c.setFlags (Cpu.handlerFlags gate.masks c.regs.flags)
  log (.gateEntered vector gate.selector gate.offset)

theorem interruptProtected_eq (vector : UInt8) (errorCode : Option UInt16) (software : Bool)
    (m : Machine) :
    interruptProtected vector errorCode software m =
      (do
        let gate ← check (m.cpu.openGate m.bus vector software)
        jumpFar gate.selector gate.offset
        pushList (if gate.wide then .dword else .word) m.cpu.returnFrame
        enterGate vector errorCode gate) m := by
  rw [interruptProtected, bind_of_ok (get_apply m)]
  cases errorCode <;> simp only [enterGate, Cpu.returnFrame, pushList, bind_assoc, pure_bind]

theorem restartable_enterGate (hF : K .flags) (vector : UInt8) (errorCode : Option UInt16)
    (gate : OpenGate) : Restartable K S (enterGate vector errorCode gate) := by
  have hEnd : Sure K (do
      modifyCpu fun c => c.setFlags (Cpu.handlerFlags gate.masks c.regs.flags)
      log (.gateEntered vector gate.selector gate.offset)) :=
    (Sure.modify fun m => .flags m _ hF).bind fun _ => .log _
  cases errorCode with
  | none => exact hEnd.restartable
  | some code => exact (Restartable.push _ _).before_sure fun _ => hEnd

theorem restartable_interruptProtected (hC : K .code) (hF : K .flags) (hS : S) (vector : UInt8)
    (errorCode : Option UInt16) (software : Bool) :
    Restartable K S (interruptProtected vector errorCode software) := by
  have hRun (c : Cpu) (b : Bus) : Restartable K S (do
      let gate ← check (c.openGate b vector software)
      jumpFar gate.selector gate.offset
      pushList (if gate.wide then .dword else .word) c.returnFrame
      enterGate vector errorCode gate) :=
    .after_reads (.check _) fun gate => .after_quiet (.jumpFar hC hS _ _) fun _ =>
      .after_quiet ((Changes.pushList _ _).quiet hS) fun _ =>
        restartable_enterGate hF vector errorCode gate
  constructor
  · intro m
    rw [after, interruptProtected_eq]
    exact (hRun m.cpu m.bus).1 m
  · intro m e m' h
    rw [interruptProtected_eq] at h
    exact (hRun m.cpu m.bus).2 m e m' h

theorem interrupt_of_real {vector : UInt8} {errorCode : Option UInt16} {software : Bool}
    {m : Machine} (hp : m.cpu.protectedMode = false) :
    interrupt vector errorCode software m = interruptReal vector m := by
  rw [interrupt, bind_of_ok (cpu_apply m), if_neg (by simp [hp])]

theorem interrupt_of_protected {vector : UInt8} {errorCode : Option UInt16} {software : Bool}
    {m : Machine} (hp : m.cpu.protectedMode = true) :
    interrupt vector errorCode software m = interruptProtected vector errorCode software m := by
  rw [interrupt, bind_of_ok (cpu_apply m), if_pos hp]

/-- Entering a handler faults before the flags change. -/
theorem restartable_interrupt (hC : K .code) (hF : K .flags) (hS : S) (vector : UInt8)
    (errorCode : Option UInt16) (software : Bool) :
    Restartable K S (interrupt vector errorCode software) := by
  have hProtected := restartable_interruptProtected hC hF hS vector errorCode software
  constructor
  · intro m
    cases hp : m.cpu.protectedMode with
    | false =>
      rw [after, interrupt_of_real hp]
      exact evolves_interruptReal hC hF vector hp
    | true =>
      rw [after, interrupt_of_protected hp]
      exact hProtected.1 m
  · intro m e m' h
    cases hp : m.cpu.protectedMode with
    | false => exact reverts_interruptReal hS ((interrupt_of_real hp).symm.trans h)
    | true => exact hProtected.2 m e m' ((interrupt_of_protected hp).symm.trans h)

theorem Changes.interrupt (hC : K .code) (hF : K .flags) (vector : UInt8)
    (errorCode : Option UInt16) (software : Bool) :
    Changes K (interrupt vector errorCode software) :=
  (restartable_interrupt (S := True) hC hF trivial vector errorCode software).changes

/-- The run pushes the frame. What it does before the pushes leaves the stack segment alone; what it
does after them is the error code, the flags and the code segment. -/
def PushesFrame (frame : List UInt32) (m m' : Machine) : Prop :=
  ∃ w m₁ m₂, Evolves (· = .code) m m₁ ∧ pushList w frame m₁ = .ok () m₂ ∧
    Evolves (fun k => k = .code ∨ k = .flags) m₂ m'

theorem pushesFrame_interruptReal {vector : UInt8} {m m' : Machine}
    (hp : m.cpu.protectedMode = false) (h : interruptReal vector m = .ok () m') :
    PushesFrame m.cpu.returnFrame m m' := by
  rw [interruptReal_eq] at h
  split at h
  · cases h
  · obtain ⟨_, m₂, hPush, hEnter⟩ := bind_eq_ok.1 h
    have hReal : m₂.cpu.protectedMode = false := (protectedMode_of_pushList hPush).trans hp
    have hEvolves := evolves_enterVector (K := fun k => k = .code ∨ k = .flags) (.inl rfl)
      (.inr rfl) hReal (m.bus.readVector m.cpu.idtr.base vector)
    rw [after_of_ok hEnter] at hEvolves
    exact ⟨.word, m, m₂, .refl m, hPush, hEvolves⟩

theorem pushesFrame_interruptProtected {vector : UInt8} {errorCode : Option UInt16}
    {software : Bool} {m m' : Machine}
    (h : interruptProtected vector errorCode software m = .ok () m') :
    PushesFrame m.cpu.returnFrame m m' := by
  rw [interruptProtected_eq] at h
  obtain ⟨gate, m₀, hGate, h⟩ := bind_eq_ok.1 h
  cases (Reads.check _).eq_of_ok hGate
  obtain ⟨_, m₁, hJump, h⟩ := bind_eq_ok.1 h
  obtain ⟨_, m₂, hPush, h⟩ := bind_eq_ok.1 h
  have hEnter := restartable_enterGate (K := fun k => k = .code ∨ k = .flags) (S := True)
    (.inr rfl) vector errorCode gate
  exact ⟨_, m₁, m₂, (Changes.jumpFar (K := (· = .code)) rfl _ _).of_ok hJump, hPush,
    hEnter.1.of_ok h⟩

/-- **A handler that has been entered finds the flags, the code segment and the instruction pointer
of the processor as it was.** -/
theorem pushesFrame_interrupt {vector : UInt8} {errorCode : Option UInt16} {software : Bool}
    {m m' : Machine} (h : interrupt vector errorCode software m = .ok () m') :
    PushesFrame m.cpu.returnFrame m m' := by
  cases hp : m.cpu.protectedMode with
  | false => exact pushesFrame_interruptReal hp ((interrupt_of_real hp).symm.trans h)
  | true => exact pushesFrame_interruptProtected ((interrupt_of_protected hp).symm.trans h)

/-! ### Derivations -/

section Derivations

variable {wide : Bool} {P : Cpu → Prop}

theorem composed_interruptReal (vector : UInt8) :
    Composed wide (·.protectedMode = false) (interruptReal vector) fun _ _ => True := by
  have hStack (c : Cpu) (v : UInt32) :
      (c.setStackPointer v).protectedMode = c.protectedMode := by
    rw [Cpu.setStackPointer, Cpu.writeRegister, Cpu.protectedMode, Cpu.cr0, Registers.readControl,
      Registers.control_write]
    rfl
  rw [show interruptReal vector = ((do
      let m ← get
      return (m.cpu, m.bus.readVector m.cpu.idtr.base vector)) >>= fun seen =>
        if vector.toNat * 4 + 3 > seen.1.idtr.limit.toNat then fault (.generalProtection 0)
        else do
          push seen.1.flagsImage .word
          push (seen.1.regs.selector .cs).toUInt32 .word
          push seen.1.regs.ip.toUInt32 .word
          enterVector seen.2) from rfl]
  refine (Composed.vector vector).bind fun seen _ _ => ?_
  refine .ite (fun _ => .fault _) fun _ => ?_
  refine Composed.weaken (P := (·.protectedMode = false)) ?_ (fun _ h => h.2) fun _ _ h => h
  refine (Composed.push_keeping hStack _ _).next fun _ => ?_
  refine (Composed.push_keeping hStack _ _).next fun _ => ?_
  refine (Composed.push_keeping hStack _ _).next fun _ => ?_
  rw [enterVector]
  have hFlags : Composed wide (·.protectedMode = false)
      (modifyCpu fun c => c.setFlags (Cpu.realHandlerFlags c.regs.flags))
      fun _ c => c.protectedMode = false :=
    .move_keeping (fun c => .single (.status c _ ⟨rfl, rfl, rfl, rfl, rfl, rfl⟩)) fun _ => rfl
  refine hFlags.next fun _ => (Composed.move _ fun c hc => ?_).forget
  rw [setEip_eq_jump]
  exact .single (.realFar c _ _ hc)

theorem composed_interruptProtected (hw : wide = true) (vector : UInt8)
    (errorCode : Option UInt16) (software : Bool) :
    Composed wide P (interruptProtected vector errorCode software) fun _ _ => True := by
  rw [show interruptProtected vector errorCode software = ((do
      let m ← get
      return (m.cpu, m.cpu.openGate m.bus vector software)) >>= fun (c, open?) => do
        let gate ← check open?
        jumpFar gate.selector gate.offset
        pushList (if gate.wide then .dword else .word) c.returnFrame
        enterGate vector errorCode gate) from
    funext fun m => (interruptProtected_eq vector errorCode software m).trans rfl]
  refine (Composed.gate vector software hw).bind fun (c, open?) _ _ => .afterCheck fun gate => ?_
  refine (Composed.jumpFar _ _).next fun _ => (Composed.pushList _ _).next fun _ => ?_
  have hEnd {P : Cpu → Prop} : Composed wide P (do
      modifyCpu fun c => c.setFlags (Cpu.handlerFlags gate.masks c.regs.flags)
      log (.gateEntered vector gate.selector gate.offset)) fun _ _ => True :=
    (Composed.moves fun c => .single (.handlerFlags c gate.masks hw)).next fun _ => .log _
  cases errorCode with
  | none => exact hEnd
  | some code => exact (Composed.push _ _).next fun _ => hEnd

/-- Protected mode is a matter of models with wide registers. -/
theorem composed_interrupt (vector : UInt8) (errorCode : Option UInt16) (software : Bool) :
    Composed wide P (interrupt vector errorCode software) fun _ _ => True := by
  refine .afterCpu fun c hc => ?_
  cases hp : c.protectedMode with
  | true =>
    have hw : wide = true :=
      eq_true_of_ne_false fun hw => absurd ((hc.narrow hw).real.symm.trans hp) Bool.false_ne_true
    exact composed_interruptProtected hw vector errorCode software
  | false =>
    exact (composed_interruptReal vector).weaken (fun _ h => h ▸ hp) fun _ _ h => h

end Derivations

end Exec

end X86
