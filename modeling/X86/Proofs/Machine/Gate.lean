import X86.Proofs.Exec.Frame
import X86.Proofs.Machine.Snapshot

/-!
# Passing a gate

In protected mode an interrupt passes its gate, loads the code segment of its handler, pushes the
frame, and sets the flags. It is refused outside the interrupt table, at the gate, at the code
segment, or at the frame. Up to there nothing but the code segment and the stack pointer has moved,
and only a refused frame leaves them moved.

* `Cpu.codeEntry`, `Exec.jumpFar_eq`: far jumps in protected mode.
* `Exec.interruptProtected_eq_ok`: what it takes to enter a handler through a gate.
* `Obstacle`, `Exec.Refused`: where an interrupt gets stuck, and how.
* `Exec.refused_of_error`: **an interrupt that fails is refused at one of these points.**
* `Exec.Refused.restore_eq`: going back to a snapshot forgets the attempt.
* `Exec.masked_of_interrupt`: no handler unmasks interrupts.
-/

namespace X86

/-- The exceptions that a refused interrupt raises. -/
inductive Exception.IsRefusal : Exception → Prop where
  | generalProtection (code : UInt16) : IsRefusal (.generalProtection code)
  | notPresent (code : UInt16) : IsRefusal (.notPresent code)
  | stackFault (code : UInt16) : IsRefusal (.stackFault code)

/-! ### Far jumps in protected mode -/

namespace Cpu

theorem isRefusal_of_lookupSegment {c : Cpu} {b : Bus} {s : SegReg} {selector : UInt16}
    {e : Exception} (h : c.lookupSegment b s selector = .error e) : e.IsRefusal := by
  rw [lookupSegment] at h
  split at h
  · cases h
    exact .generalProtection _
  · split at h
    · cases h
      exact .generalProtection _
    · dsimp only at h
      split at h
      · cases h
        exact .generalProtection _
      · split at h
        · cases h
          split
          · exact .stackFault _
          · exact .notPresent _
        · cases h

/-- The table entry of a code segment, with its address. A null selector names none. -/
def codeEntry (c : Cpu) (b : Bus) (selector : UInt16) : Except Exception (UInt32 × Descriptor) :=
  if selectorIndex selector = 0 then .error (.generalProtection 0)
  else c.lookupSegment b .cs selector

theorem isRefusal_of_codeEntry {c : Cpu} {b : Bus} {selector : UInt16} {e : Exception}
    (h : c.codeEntry b selector = .error e) : e.IsRefusal := by
  rw [codeEntry] at h
  split at h
  · cases h
    exact .generalProtection 0
  · exact isRefusal_of_lookupSegment h

/-- The processor at an offset of a code segment of the table. -/
def atEntry (c : Cpu) (selector : UInt16) (eip : UInt32) (d : Descriptor) : Cpu :=
  (c.loadCache .cs selector d.markAccessed).jump eip

theorem restore_atEntry (c : Cpu) (selector : UInt16) (eip : UInt32) (d : Descriptor)
    (s : Snapshot) : (c.atEntry selector eip d).restore s = c.restore s := rfl

theorem restore_lowered (c : Cpu) (n : Nat) (s : Snapshot) :
    (c.lowered n).restore s = c.restore s :=
  c.restore_setStackPointer _ s

theorem restore_restore (c : Cpu) (s s' : Snapshot) : (c.restore s).restore s' = c.restore s' :=
  rfl

theorem protectedMode_restore (c : Cpu) (s : Snapshot) :
    (c.restore s).protectedMode = c.protectedMode := rfl

theorem snapshot_lowered_atEntry (c : Cpu) (selector : UInt16) (eip : UInt32) (d : Descriptor)
    (n : Nat) :
    ((c.atEntry selector eip d).lowered n).snapshot =
      { cs := selector, eip := wrapOffset d.big eip, esp := (c.lowered n).regs.gprs.esp,
        csCache := d.markAccessed } := by
  have hEsp :
      ((c.atEntry selector eip d).lowered n).regs.gprs.esp = (c.lowered n).regs.gprs.esp := by
    rw [lowered, lowered, esp_setStackPointer, esp_setStackPointer]
    rfl
  rw [← hEsp, lowered, setStackPointer_eq]
  rfl

theorem flags_lowered (c : Cpu) (n : Nat) : (c.lowered n).regs.flags = c.regs.flags := by
  rw [lowered, setStackPointer_eq]
  rfl

end Cpu

namespace Exec

variable {m m' : Machine} {s : Stop}

/-- The machine after a far jump to a code segment of the table. -/
def arrived (m : Machine) (selector : UInt16) (eip entry : UInt32) (d : Descriptor) : Machine :=
  ((markEntry m entry d).record (.segmentLoaded .cs selector d.markAccessed)).withCpu
    (·.atEntry selector eip d)

theorem cpu_arrived (m : Machine) (selector : UInt16) (eip entry : UInt32) (d : Descriptor) :
    (arrived m selector eip entry d).cpu = m.cpu.atEntry selector eip d :=
  congrArg (Cpu.atEntry · selector eip d) (cpu_markEntry m entry d)

/-- A far jump arrives if the table has an entry for it, and otherwise changes nothing. -/
theorem jumpFar_eq (hp : m.cpu.protectedMode = true) (selector : UInt16) (eip : UInt32) :
    jumpFar selector eip m =
      match m.cpu.codeEntry m.bus selector with
      | .ok (entry, d) => .ok () (arrived m selector eip entry d)
      | .error e => .error (.fault e) m := by
  rw [jumpFar, loadSegment, bind_apply, bind_of_ok (get_apply m), hp, if_neg (by decide),
    Cpu.codeEntry]
  by_cases hn : Cpu.selectorIndex selector = 0
  · rw [if_pos hn, if_pos hn, if_pos (.inr rfl)]
    rfl
  · rw [if_neg hn, if_neg hn]
    cases hl : m.cpu.lookupSegment m.bus .cs selector with
    | error e => rfl
    | ok r =>
      obtain ⟨entry, d⟩ := r
      rw [check_ok, pure_bind]
      dsimp only
      rw [loadEntry_apply]
      rfl

end Exec

/-! ### Frames for handlers -/

/-- The width of the values in the frame of a handler. -/
def OpenGate.width (g : OpenGate) : Width := if g.wide then .dword else .word

theorem OpenGate.width_ne_byte (g : OpenGate) : g.width ≠ .byte := by
  rw [OpenGate.width]
  split <;> decide

/-- A frame without an error code is far from wrapping around a stack. -/
theorem OpenGate.frame_le (g : OpenGate) : g.width.bytes * 3 ≤ 0x10000 := by
  rw [OpenGate.width]
  split <;> decide

/-- The frame for a protected mode handler, in the order of the pushes. -/
def Cpu.gateFrame (c : Cpu) (errorCode : Option UInt16) : List UInt32 :=
  c.returnFrame ++ (errorCode.map UInt16.toUInt32).toList

namespace Exec

/-- A gate is passed in four parts: the table lets it through, the code segment is loaded, the frame
is pushed, and the flags are set. -/
theorem interruptProtected_eq_pushList (vector : UInt8) (errorCode : Option UInt16)
    (software : Bool) (m : Machine) :
    interruptProtected vector errorCode software m =
      (do
        let gate ← check (m.cpu.openGate m.bus vector software)
        jumpFar gate.selector gate.offset
        pushList gate.width (m.cpu.gateFrame errorCode)
        enterGate vector none gate) m := by
  have hEnd (gate : OpenGate) :
      (do pushList gate.width m.cpu.returnFrame; enterGate vector errorCode gate) =
        (do pushList gate.width (m.cpu.gateFrame errorCode); enterGate vector none gate) := by
    cases errorCode with
    | none => rw [Cpu.gateFrame, Option.map_none, Option.toList_none, List.append_nil]
    | some code =>
      rw [Cpu.gateFrame, pushList_append, bind_assoc]
      simp only [Option.map_some, Option.toList_some, pushList, bind_assoc, pure_bind]
      rfl
  rw [interruptProtected_eq]
  refine congrFun (bind_congr fun gate => bind_congr fun _ => ?_) m
  exact hEnd gate

/-- **The handler of a gate is entered if the table lets it through, its code segment can be loaded,
and the stack takes the frame.** -/
theorem interruptProtected_eq_ok {vector : UInt8} {errorCode : Option UInt16} {software : Bool}
    {m m' : Machine} (hp : m.cpu.protectedMode = true) :
    interruptProtected vector errorCode software m = .ok () m' ↔
      ∃ g entry d m₁, m.cpu.openGate m.bus vector software = .ok g ∧
        m.cpu.codeEntry m.bus g.selector = .ok (entry, d) ∧
        pushList g.width (m.cpu.gateFrame errorCode) (arrived m g.selector g.offset entry d) =
          .ok () m₁ ∧
        m' = (m₁.withCpu fun c => c.setFlags (Cpu.handlerFlags g.masks c.regs.flags)).record
          (.gateEntered vector g.selector g.offset) := by
  rw [interruptProtected_eq_pushList, bind_eq_ok]
  constructor
  · rintro ⟨g, m₀, hGate, h⟩
    obtain ⟨_, m₁, hJump, h⟩ := bind_eq_ok.1 h
    obtain ⟨_, m₂, hPush, hEnd⟩ := bind_eq_ok.1 h
    obtain ⟨hOpen, rfl⟩ := check_eq_ok.1 hGate
    rw [jumpFar_eq hp] at hJump
    split at hJump
    · rename_i entry d hEntry
      cases hJump
      cases hEnd
      exact ⟨g, entry, d, m₂, hOpen, hEntry, hPush, rfl⟩
    · cases hJump
  · rintro ⟨g, entry, d, m₁, hOpen, hEntry, hPush, rfl⟩
    refine ⟨g, m, check_eq_ok.2 ⟨hOpen, rfl⟩, ?_⟩
    have hJump :
        jumpFar g.selector g.offset m = .ok () (arrived m g.selector g.offset entry d) := by
      rw [jumpFar_eq hp, hEntry]
    exact (bind_of_ok hJump).trans ((bind_of_ok hPush).trans rfl)

theorem masked_of_interrupt {vector : UInt8} {errorCode : Option UInt16} {software : Bool}
    {m m' : Machine} (h : interrupt vector errorCode software m = .ok () m')
    (hMasked : m.cpu.regs.flags.interrupt = false) : m'.cpu.regs.flags.interrupt = false := by
  cases hp : m.cpu.protectedMode with
  | false =>
    rw [interrupt_of_real hp, interruptReal_eq] at h
    split at h
    · cases h
    · obtain ⟨_, m₁, -, hEnter⟩ := bind_eq_ok.1 h
      cases (enterVector_apply _ m₁).symm.trans hEnter
      rfl
  | true =>
    rw [interrupt_of_protected hp, interruptProtected_eq_ok hp] at h
    obtain ⟨g, entry, d, m₁, -, -, hPush, rfl⟩ := h
    have hFlags : m₁.cpu.regs.flags = m.cpu.regs.flags := by
      rw [cpu_of_pushList hPush, Cpu.flags_lowered, cpu_arrived]
      rfl
    change (!g.masks && m₁.cpu.regs.flags.interrupt) = false
    rw [hFlags, hMasked, Bool.and_false]

end Exec

/-! ### Obstacles -/

/-- The point at which an interrupt is refused. -/
inductive Obstacle where
  /-- The vector lies outside the interrupt table. -/
  | table
  /-- The gate is of no kind that is modelled, closed to the caller, or not present. -/
  | gate
  /-- The code segment of the handler cannot be loaded. -/
  | target
  /-- The stack segment does not take value `n` of the frame. The code segment of the gate is
  loaded, with its descriptor `d`. -/
  | frame (g : OpenGate) (d : Descriptor) (n : Nat)

/-- The processor that an interrupt gets stuck with. -/
def Obstacle.stuck (c : Cpu) : Obstacle → Cpu
  | table | gate | target => c
  | frame g d n => (c.atEntry g.selector g.offset d).lowered (g.width.bytes * n)

namespace Exec

/-- The interrupt is refused at the obstacle, with this exception and this machine. -/
inductive Refused (vector : UInt8) (errorCode : Option UInt16) (software : Bool) (m : Machine) :
    Obstacle → Exception → Machine → Prop where
  | vectors (hp : m.cpu.protectedMode = false)
    (h : m.cpu.idtr.limit.toNat < vector.toNat * 4 + 3) :
    Refused vector errorCode software m .table (.generalProtection 0) m
  | table (hp : m.cpu.protectedMode = true)
    (h : m.cpu.idtr.entryAddress? (vector.toUInt32 <<< 3) = none) :
    Refused vector errorCode software m .table (.generalProtection (gateErrorCode vector)) m
  | gate {entry : UInt32} {e : Exception} (hp : m.cpu.protectedMode = true)
    (hEntry : m.cpu.idtr.entryAddress? (vector.toUInt32 <<< 3) = some entry)
    (he : e = .generalProtection (gateErrorCode vector) ∨ e = .notPresent (gateErrorCode vector))
    (h : m.cpu.openGate m.bus vector software = .error e) :
    Refused vector errorCode software m .gate e m
  | target {g : OpenGate} {e : Exception} (hp : m.cpu.protectedMode = true)
    (hGate : m.cpu.openGate m.bus vector software = .ok g)
    (h : m.cpu.codeEntry m.bus g.selector = .error e) :
    Refused vector errorCode software m .target e m
  | frame {g : OpenGate} {entry : UInt32} {d : Descriptor} {n : Nat} {m' : Machine}
    (hp : m.cpu.protectedMode = true) (hGate : m.cpu.openGate m.bus vector software = .ok g)
    (hEntry : m.cpu.codeEntry m.bus g.selector = .ok (entry, d))
    (hn : n < (m.cpu.gateFrame errorCode).length)
    (h : pushList g.width ((m.cpu.gateFrame errorCode).take n)
      (arrived m g.selector g.offset entry d) = .ok () m') :
    Refused vector errorCode software m (.frame g d n) (.stackFault 0) m'

theorem openGate_eq_error {c : Cpu} {b : Bus} {vector : UInt8} {software : Bool} {e : Exception}
    (h : c.openGate b vector software = .error e) :
    (c.idtr.entryAddress? (vector.toUInt32 <<< 3) = none ∧
        e = .generalProtection (gateErrorCode vector)) ∨
      ∃ entry, c.idtr.entryAddress? (vector.toUInt32 <<< 3) = some entry ∧
        (e = .generalProtection (gateErrorCode vector) ∨
          e = .notPresent (gateErrorCode vector)) := by
  rw [Cpu.openGate] at h
  split at h
  · rename_i hNone
    cases h
    exact .inl ⟨hNone, rfl⟩
  · rename_i entry hEntry
    refine .inr ⟨entry, hEntry, ?_⟩
    dsimp only at h
    split at h
    · cases h
      exact .inl rfl
    · cases h
      exact .inl rfl
    · split at h
      · cases h
        exact .inl rfl
      · split at h <;> cases h
        exact .inr rfl

variable {vector : UInt8} {errorCode : Option UInt16} {software : Bool} {m m' : Machine}

theorem refused_of_interruptReal {s : Stop} (hp : m.cpu.protectedMode = false)
    (h : interruptReal vector m = .error s m') :
    ∃ o e, s = .fault e ∧ Refused vector errorCode software m o e m' := by
  rw [interruptReal_eq] at h
  split at h
  · rename_i hTable
    cases h
    exact ⟨.table, _, rfl, .vectors hp hTable⟩
  · obtain ⟨m₁, hPush⟩ := pushList_of_real hp .word m.cpu.returnFrame
    cases (bind_of_ok hPush).symm.trans h

theorem refused_of_interruptProtected {s : Stop} (hp : m.cpu.protectedMode = true)
    (h : interruptProtected vector errorCode software m = .error s m') :
    ∃ o e, s = .fault e ∧ Refused vector errorCode software m o e m' := by
  rw [interruptProtected_eq_pushList] at h
  -- the parts in their order; setting the flags, the last one, cannot fail
  cases hGate : m.cpu.openGate m.bus vector software with
  | error e =>
    rw [hGate] at h
    cases h
    rcases openGate_eq_error hGate with ⟨hNone, rfl⟩ | ⟨entry, hEntry, he⟩
    · exact ⟨.table, _, rfl, .table hp hNone⟩
    · exact ⟨.gate, e, rfl, .gate hp hEntry he hGate⟩
  | ok g =>
    rw [hGate, check_ok, pure_bind, bind_apply, jumpFar_eq hp] at h
    cases hEntry : m.cpu.codeEntry m.bus g.selector with
    | error e =>
      rw [hEntry] at h
      cases h
      exact ⟨.target, e, rfl, .target hp hGate hEntry⟩
    | ok r =>
      obtain ⟨entry, d⟩ := r
      rw [hEntry] at h
      rcases bind_eq_error.1 h with hPush | ⟨_, m₁, -, hEnd⟩
      · obtain ⟨rfl, n, hn, hBefore⟩ := exists_take_of_pushList hPush
        exact ⟨.frame g d n, _, rfl, .frame hp hGate hEntry hn hBefore⟩
      · cases hEnd

/-- **An interrupt that fails is refused at one of the obstacles.** -/
theorem refused_of_error {s : Stop} (h : interrupt vector errorCode software m = .error s m') :
    ∃ o e, s = .fault e ∧ Refused vector errorCode software m o e m' := by
  cases hp : m.cpu.protectedMode with
  | false => exact refused_of_interruptReal hp ((interrupt_of_real hp).symm.trans h)
  | true => exact refused_of_interruptProtected hp ((interrupt_of_protected hp).symm.trans h)

namespace Refused

variable {o : Obstacle} {e : Exception}

theorem isRefusal (h : Refused vector errorCode software m o e m') : e.IsRefusal := by
  cases h with
  | vectors | table => exact .generalProtection _
  | gate hp hEntry he => rcases he with rfl | rfl <;> constructor
  | target hp hGate hEntry => exact Cpu.isRefusal_of_codeEntry hEntry
  | frame => exact .stackFault 0

theorem cpu_eq (h : Refused vector errorCode software m o e m') : m'.cpu = o.stuck m.cpu := by
  cases h with
  | vectors | table | gate | target => rfl
  | frame hp hGate hEntry hn hBefore =>
    rw [cpu_of_pushList hBefore, cpu_arrived, List.length_take_of_le (Nat.le_of_lt hn)]
    rfl

/-- Going back to a snapshot forgets a refused interrupt. -/
theorem restore_eq (h : Refused vector errorCode software m o e m') (s : Snapshot) :
    m'.cpu.restore s = m.cpu.restore s := by
  rw [h.cpu_eq]
  cases o with
  | table | gate | target => rfl
  | frame g d n => exact (Cpu.restore_lowered _ _ s).trans (Cpu.restore_atEntry ..)

theorem flags_eq (h : Refused vector errorCode software m o e m') :
    m'.cpu.regs.flags = m.cpu.regs.flags := by
  rw [h.cpu_eq]
  cases o with
  | table | gate | target => rfl
  | frame g d n => exact Cpu.flags_lowered _ _

end Refused

end Exec

/-- A machine in protected mode for examples. Its memory holds an interrupt table, and then a global
table with one code segment, which is running. -/
def tableMachine (model : Model) (gates : List UInt8) : Machine :=
  { cpu :=
      { model
        regs :=
          { ({} : Registers).writeControl .zero Cpu.protectionBit with
            selectors := (SegMap.replicate 0).set .cs 8
            eip := 0x200
            gprs := { esp := 0x400 } }
        caches :=
          ((SegMap.replicate (Descriptor.realMode 0)).set .cs
            { limit := 0xFFFF, access := 0x9B }).set .ss { limit := 0xFFFF, access := 0x93 }
        idtr := { base := 0, limit := UInt16.ofNat (gates.length - 1) }
        gdtr := { base := UInt32.ofNat gates.length, limit := 15 } }
    bus :=
      { ram := ⟨⟨(gates ++ List.replicate 8 0 ++ [0xFF, 0xFF, 0, 0, 0, 0x9B, 0, 0]).toArray⟩⟩ } }

/-- The bytes of a 16-bit interrupt gate to an offset of the code segment, for ring 0. -/
def gateTo (offset : UInt16) : List UInt8 :=
  [offset.toUInt8, (offset >>> 8).toUInt8, 8, 0, 0, 0x86, 0, 0]

end X86
