import X86.Proofs.Machine.Interrupt

/-!
# Footprints and derivations of delivery

Whatever becomes of an exception, its delivery loads code segments, sets flags, goes back to the
snapshot, and at worst kills the processor. Nothing of it begins or ends a wait, and no exception is
left over.

* `sure_deliver`, `sure_raise`: the footprints.
* `deliver_of_le`: **in real mode an exception in the table is delivered to its own handler.**
* `composed_deliver`, `composed_raise`: deliveries are composed of moves.
-/

namespace X86.Exec

variable {K : ChangeKind → Prop}

/-- The kinds of change that deliveries make. -/
def Delivers (k : ChangeKind) : Prop := k = .code ∨ k = .flags ∨ k = .restore ∨ k = .death

theorem changes_interrupt (vector : UInt8) (errorCode : Option UInt16) (software : Bool) :
    Changes Delivers (interrupt vector errorCode software) :=
  .interrupt (.inl rfl) (.inr (.inl rfl)) vector errorCode software

theorem sure_restore (s : Snapshot) : Sure Delivers (restore s) :=
  .modify fun m => .restore m s (.inr (.inr (.inl rfl)))

theorem sure_shutDown (third : Exception) : Sure Delivers (shutDown third) := by
  refine Sure.get.bind fun m => (Sure.log _).bind fun _ => ?_
  exact .modify fun m => .die m (.inr (.inr (.inr rfl)))

theorem sure_escalate (e second : Exception) (s : Snapshot) :
    Sure Delivers (escalate e second s) := by
  rw [escalate]
  split
  · exact sure_shutDown second
  · refine (Sure.log _).bind fun _ => (sure_restore s).bind fun _ => ?_
    refine (Sure.attempt (changes_interrupt _ _ _)).bind fun r => ?_
    cases r with
    | none => exact .pure ()
    | some third => exact sure_shutDown third

theorem sure_enterHandler (e : Exception) (software : Bool) (s : Snapshot) :
    Sure Delivers (enterHandler e software s) :=
  (Sure.log _).bind fun _ => .attempt (changes_interrupt _ _ _)

theorem sure_deliverFault (e : Exception) (s : Snapshot) :
    Sure Delivers (deliverFault e s) := by
  refine (sure_enterHandler e false s).bind fun r => ?_
  cases r with
  | none => exact .pure true
  | some second => exact (sure_escalate e second s).bind fun _ => .pure false

theorem sure_deliver (e : Exception) (s : Snapshot) : Sure Delivers (deliver e s) := by
  rw [deliver]
  split
  · refine (sure_enterHandler e true s).bind fun r => ?_
    cases r with
    | none => exact .pure true
    | some second =>
      refine (Sure.log _).bind fun _ => (sure_restore s).bind fun _ => ?_
      exact (sure_deliverFault second s).bind fun _ => .pure false
  · exact sure_deliverFault e s

theorem sure_singleStep : Sure Delivers singleStep :=
  Sure.cpu.bind fun _ => (sure_deliver _ _).bind fun _ => .pure ()

theorem sure_raise (e : Exception) (start : Snapshot) (stepping : Bool) :
    Sure Delivers (raise e start stepping) := by
  have hEnd : Sure Delivers (do
      let entered ← deliver e start
      if entered ∧ e.isTrap ∧ stepping then singleStep) := by
    refine (sure_deliver e start).bind fun entered => ?_
    split
    · exact sure_singleStep
    · exact .pure ()
  rw [raise]
  split
  · exact hEnd
  · exact (sure_restore start).bind fun _ => hEnd

/-! ### Real mode -/

section Real

/-- The kinds of change that entering a handler makes. -/
def Enters (k : ChangeKind) : Prop := k = .code ∨ k = .flags

variable {m : Machine} (hp : m.cpu.protectedMode = false)

include hp

/-- In real mode the handler of a vector in the table is entered, with interrupts masked. -/
theorem interrupt_of_le {vector : UInt8} (hl : vector.toNat * 4 + 3 ≤ m.cpu.idtr.limit.toNat)
    (errorCode : Option UInt16) (software : Bool) :
    ∃ m', interrupt vector errorCode software m = .ok () m' ∧ Evolves Enters m m' ∧
      m'.cpu.regs.flags.interrupt = false := by
  obtain ⟨m', hEnter, hMasked⟩ := interruptReal_of_le vector hp hl
  have hEvolves : Evolves Enters m m' := by
    rw [← after_of_ok hEnter]
    exact evolves_interruptReal (.inl rfl) (.inr rfl) vector hp
  exact ⟨m', (interrupt_of_real hp).trans hEnter, hEvolves, hMasked⟩

/-- An exception in the table is delivered to its own handler. -/
theorem deliver_of_le {e : Exception} (hl : e.vector.toNat * 4 + 3 ≤ m.cpu.idtr.limit.toNat)
    (s : Snapshot) :
    ∃ m', deliver e s m = .ok true m' ∧ Evolves Enters m m' ∧
      m'.cpu.regs.flags.interrupt = false := by
  let start := m.record (.raised e { cs := s.cs, eip := s.eip })
  have hHandler (software : Bool) :
      ∃ m', enterHandler e software s m = .ok none m' ∧ Evolves Enters m m' ∧
        m'.cpu.regs.flags.interrupt = false := by
    obtain ⟨m', hEnter, hEvolves, hMasked⟩ :=
      interrupt_of_le (m := start) hp hl e.errorCode software
    exact ⟨m', (bind_of_ok (log_apply _ m)).trans (attempt_eq_none.2 hEnter),
      (Evolves.single (.note m _)).trans hEvolves, hMasked⟩
  rw [deliver]
  split
  · obtain ⟨m', hEnter, h⟩ := hHandler true
    exact ⟨m', bind_of_ok hEnter, h⟩
  · obtain ⟨m', hEnter, h⟩ := hHandler false
    exact ⟨m', bind_of_ok hEnter, h⟩

theorem singleStep_of_le (hl : 7 ≤ m.cpu.idtr.limit.toNat) :
    ∃ m', singleStep m = .ok () m' ∧ Evolves Enters m m' ∧
      m'.cpu.regs.flags.interrupt = false := by
  obtain ⟨m', hDeliver, h⟩ := deliver_of_le hp (e := .debug) hl m.cpu.snapshot
  exact ⟨m', (bind_of_ok (cpu_apply m)).trans (bind_of_ok hDeliver), h⟩

end Real

/-! ### Derivations -/

section Derivations

variable {wide : Bool} {P : Cpu → Prop} {s : Snapshot}

theorem composed_restore (hs : s.Fits wide) : Composed wide P (restore s) fun _ _ => True :=
  .moves fun c => .single (.restore c s hs)

theorem composed_shutDown (third : Exception) :
    Composed wide P (shutDown third) fun _ _ => True := by
  refine .afterGet (fun _ => rfl) fun m _ => .afterLog ?_
  exact .moves fun c => .activity c _ _ _ _ _

theorem composed_escalate (e second : Exception) (hs : s.Fits wide) :
    Composed wide P (escalate e second s) fun _ _ => True := by
  refine .ite (fun _ => composed_shutDown second) fun _ => .afterLog ?_
  refine (composed_restore hs).next fun _ => ?_
  refine (composed_interrupt _ _ _).attempt.next fun r => ?_
  cases r with
  | none => exact .answer ()
  | some third => exact composed_shutDown third

theorem composed_enterHandler (e : Exception) (software : Bool) (s : Snapshot) :
    Composed wide P (enterHandler e software s) fun _ _ => True :=
  .afterLog (composed_interrupt _ _ _).attempt

theorem composed_deliverFault (e : Exception) (hs : s.Fits wide) :
    Composed wide P (deliverFault e s) fun _ _ => True := by
  refine (composed_enterHandler e false s).next fun r => ?_
  cases r with
  | none => exact .answer true
  | some second => exact (composed_escalate e second hs).next fun _ => .answer false

theorem composed_deliver (e : Exception) (hs : s.Fits wide) :
    Composed wide P (deliver e s) fun _ _ => True := by
  refine .ite (fun _ => ?_) fun _ => composed_deliverFault e hs
  refine (composed_enterHandler e true s).next fun r => ?_
  cases r with
  | none => exact .answer true
  | some second =>
    refine .afterLog ((composed_restore hs).next fun _ => ?_)
    exact (composed_deliverFault second hs).next fun _ => .answer false

theorem composed_singleStep : Composed wide P singleStep fun _ _ => True :=
  .afterCpu fun _ hc => (composed_deliver _ hc.fits_snapshot).next fun _ => .answer ()

theorem composed_raise (e : Exception) {start : Snapshot} (hs : start.Fits wide)
    (stepping : Bool) : Composed wide P (raise e start stepping) fun _ _ => True := by
  have hEnd {P : Cpu → Prop} : Composed wide P (do
      let entered ← deliver e start
      if entered ∧ e.isTrap ∧ stepping then singleStep) fun _ _ => True := by
    refine (composed_deliver e hs).next fun entered => ?_
    exact .ite (fun _ => composed_singleStep) fun _ => .answer ()
  exact .ite (fun _ => hEnd) fun _ => (composed_restore hs).next fun _ => hEnd

end Derivations

end X86.Exec
