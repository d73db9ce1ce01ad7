import X86.Proofs.Execute.Stack
import X86.Proofs.Execute.Strings
import X86.Proofs.Machine.Interrupt

/-!
# Footprints and derivations of control transfers

A jump is refused before it moves anything, whether near or far. A software interrupt is restartable
because entering a handler is, unless a device serves it, and then it cannot fault.

The derivations load a code segment only together with the instruction pointer.
-/

namespace X86.Exec

variable {K : ChangeKind → Prop} {S : Prop}

/-! ### Jumps, calls and returns -/

theorem Reads.nearTarget (i : Instruction) : Reads (nearTarget i) :=
  .bind (.place i _) fun _ => .readPlace _ _

theorem restartable_jumpNear (i : Instruction) : Restartable K S (jumpNear i) :=
  .after_reads (.nearTarget i) fun v => (Sure.jump v).restartable

/-- The operand is a constant. -/
def IsConstant (o : Operand) : Prop :=
  ∃ v : UInt32, ∀ (c : Cpu) (wide : Bool), c.resolve o wide = .value v

/-- A jump to a constant cannot fault. -/
theorem Sure.jumpNear {i : Instruction} (hDst : IsConstant i.dst) : Sure K (jumpNear i) := by
  obtain ⟨v, hv⟩ := hDst
  have hTarget : Exec.nearTarget i = (do let _ ← Exec.cpu; return i.size.truncate v) := by
    funext m
    rw [Exec.nearTarget, bind_of_ok (place_apply i i.dst m), hv, readPlace_apply]
    rfl
  rw [Exec.jumpNear, hTarget]
  exact (Sure.cpu.bind fun _ => .pure _).bind fun v => .jump v

theorem restartable_callNear (i : Instruction) : Restartable K S (callNear i) := by
  refine .after_reads (.nearTarget i) fun v => .after_reads .regs fun g => ?_
  exact (Restartable.push _ _).before_sure fun _ => .jump v

theorem Reads.farTarget (i : Instruction) : Reads (farTarget i) := by
  rw [Exec.farTarget]
  split
  · exact .pure _
  · exact .bind (.location i _) fun l => .readFar l _

theorem restartable_jumpFarOperand (hC : K .code) (i : Instruction) :
    Restartable K S (jumpFarOperand i) :=
  .after_reads (.farTarget i) fun _ => .jumpFar hC _ _

theorem restartable_callFar (hC : K .code) (hS : S) (i : Instruction) :
    Restartable K S (callFar i) := by
  refine .after_reads (.farTarget i) fun t => .after_reads .regs fun g => ?_
  exact .after_quiet (.push hS _ _) fun _ => .after_quiet (.push hS _ _) fun _ => .jumpFar hC _ _

theorem Sure.release (i : Instruction) : Sure K (release i) := by
  rw [Exec.release]
  split
  · exact .moveStack fun _ => _
  · exact .pure ()

theorem restartable_returnNear (i : Instruction) : Restartable K S (returnNear i) :=
  .after_quiet (.pop _) fun _ => ((Sure.jump _).bind fun _ => .release i).restartable

theorem restartable_returnFar (hC : K .code) (i : Instruction) :
    Restartable K S (returnFar i) := by
  refine .after_quiet (.pop _) fun eip => .after_quiet (.pop _) fun cs => ?_
  exact (Restartable.jumpFar hC _ _).before_sure fun _ => .release i

theorem restartable_iret (hC : K .code) (hF : K .flags) (w : Width) :
    Restartable K S (iret w) := by
  refine .after_quiet (.pop _) fun eip => .after_quiet (.pop _) fun cs => ?_
  refine .after_quiet (.pop _) fun f => (Restartable.jumpFar hC _ _).before_sure fun _ => ?_
  exact .loadFlags hF _ _

theorem restartable_jcc (c : Condition) (i : Instruction) : Restartable K S (jcc c i) :=
  .after_reads .flags fun _ => .ite (restartable_jumpNear i) (.pure ())

theorem restartable_loop (hG : K .general) (op : LoopOp) (i : Instruction)
    (hDst : IsConstant i.dst) : Restartable K S (loop op i) := by
  refine .after_reads .regs fun g => Sure.restartable ?_
  have hJump (count : UInt32) :
      Sure K (do if loopTaken op count (← flags).zero then jumpNear i) := by
    refine Sure.flags.bind fun f => ?_
    split
    · exact .jumpNear hDst
    · exact .pure ()
  dsimp only
  split
  · exact hJump _
  · exact (Sure.writeRegister hG (isSegment_ofGpr _ _) _).bind fun _ => hJump _

/-! ### Interrupts by instruction -/

theorem mem_of_firstAnswer {α : Type} {devices : List Device} {ask : Device → Option α}
    {n : Nat} {a : α} (h : firstAnswer devices ask = some (n, a)) :
    ∃ d ∈ devices, ask d = some a := by
  rw [firstAnswer] at h
  generalize 0 = k at h
  induction devices generalizing k with
  | nil => cases h
  | cons d rest ih =>
    rw [firstAnswer.go] at h
    cases hd : ask d with
    | some b =>
      rw [hd] at h
      cases h
      exact ⟨d, List.mem_cons_self, hd⟩
    | none =>
      rw [hd] at h
      obtain ⟨d', hMem, hAsk⟩ := ih _ h
      exact ⟨d', List.mem_cons_of_mem _ hMem, hAsk⟩

/-- The first device that serves the interrupt, with its place in the list. -/
def server (m : Machine) (vector : UInt8) : Option (Nat × Device) :=
  firstAnswer m.devices fun d => if d.serves m.bus.traffic vector then some d else none

theorem serves_of_server {m : Machine} {vector : UInt8} {n : Nat} {d : Device}
    (h : server m vector = some (n, d)) :
    d ∈ m.devices ∧ d.serves m.bus.traffic vector = true := by
  obtain ⟨d', hMem, hAsk⟩ := mem_of_firstAnswer h
  split at hAsk
  · rename_i hServes
    cases hAsk
    exact ⟨hMem, hServes⟩
  · cases hAsk

/-- The machine after device number `n` has served an interrupt. -/
def served (m : Machine) (n : Nat) (d : Device) (vector : UInt8) : Machine :=
  let s := d.serve vector m.cpu (m.bus.record (.service n vector))
  { m with cpu := s.cpu, bus := s.bus, exitRequested := m.exitRequested || s.exit }

theorem serveInterrupt_apply (vector : UInt8) (m : Machine) :
    serveInterrupt vector m =
      match server m vector with
      | none => .ok false m
      | some (n, d) => .ok true (served m n d vector) := by
  rw [serveInterrupt, bind_of_ok (get_apply m), server]
  split
  · rename_i h
    rw [h]
    rfl
  · rename_i h
    rw [h]
    rfl

/-- A device serves the interrupt, or nothing happens. -/
theorem serveInterrupt_cases (vector : UInt8) (m : Machine) :
    serveInterrupt vector m = .ok false m ∨
      ∃ n, ∃ d ∈ m.devices, serveInterrupt vector m = .ok true (served m n d vector) := by
  rw [serveInterrupt_apply]
  cases hServer : server m vector with
  | none => exact .inl rfl
  | some nd => exact .inr ⟨nd.1, nd.2, (serves_of_server hServer).1, rfl⟩

theorem restartable_int (hC : K .code) (hF : K .flags) (hV : K .service) (hS : S)
    (i : Instruction) : Restartable K S (int i) := by
  rw [int]
  split
  · rename_i vector _
    have hEnter := restartable_interrupt hC hF hS vector none true
    constructor
    · intro m
      rcases serveInterrupt_cases vector m with h | ⟨n, d, hMem, h⟩
      · rw [after_bind_of_ok h]
        exact hEnter.1 m
      · rw [after_bind_of_ok h]
        exact .single (.serve m n d vector hV hMem)
    · intro m e m' hf
      rcases serveInterrupt_cases vector m with h | ⟨n, d, -, h⟩
      · rw [bind_of_ok h] at hf
        exact hEnter.2 m e m' hf
      · rw [bind_of_ok h] at hf
        cases hf
  · exact .fault _

theorem restartable_bound (i : Instruction) : Restartable K S (bound i) := by
  refine .after_reads (.place i _) fun p => .after_reads (.readPlace _ _) fun index => ?_
  refine .after_reads (.location i _) fun l => .after_reads (.readMem _ _) fun lower => ?_
  exact .after_reads (.readMem _ _) fun upper => .ite (.fault _) (.pure ())

theorem restartable_hlt (hH : K .halt) (hD : K .death) : Restartable K S hlt := by
  refine .after_reads .get fun m => .after_reads (.check _) fun _ => Sure.restartable ?_
  have hHalt : Sure K (modifyCpu fun c => { c with halted := true }) :=
    .modify fun m => .halt m hH
  dsimp only
  split
  · exact (Sure.log _).bind fun _ => (Sure.modify fun m => .die m hD).bind fun _ => hHalt
  · exact hHalt

/-! ### Derivations -/

section Derivations

variable {wide : Bool} {P : Cpu → Prop} {i : Instruction}

theorem composed_nearTarget (hi : i.Fits wide) :
    Composed wide P (nearTarget i) fun _ => P :=
  .afterPlace hi.dst hi.addr32 fun _ hp _ => .readPlace hp _

theorem composed_jumpNear (hi : i.Fits wide) : Composed wide P (jumpNear i) fun _ _ => True :=
  (composed_nearTarget hi).next fun v => .jump v

theorem composed_callNear (hi : i.Fits wide) : Composed wide P (callNear i) fun _ _ => True := by
  refine (composed_nearTarget hi).next fun v => .afterRegs fun g => ?_
  exact (Composed.push _ _).next fun _ => .jump v

theorem composed_farTarget (hi : i.Fits wide) :
    Composed wide P (farTarget i) fun _ _ => True := by
  rw [Exec.farTarget]
  split
  · exact .answer _
  · exact .afterLocation hi.dst hi.addr32 fun l hl => .readFar hl _

theorem composed_jumpFarOperand (hi : i.Fits wide) :
    Composed wide P (jumpFarOperand i) fun _ _ => True :=
  (composed_farTarget hi).next fun _ => .jumpFar _ _

theorem composed_callFar (hi : i.Fits wide) : Composed wide P (callFar i) fun _ _ => True := by
  refine (composed_farTarget hi).next fun t => .afterRegs fun g => ?_
  exact (Composed.push _ _).next fun _ => (Composed.push _ _).next fun _ => .jumpFar _ _

theorem composed_release (i : Instruction) : Composed wide P (release i) fun _ _ => True := by
  rw [Exec.release]
  split
  · exact .moveStack fun _ => _
  · exact .answer ()

theorem composed_returnNear (i : Instruction) :
    Composed wide P (returnNear i) fun _ _ => True :=
  (Composed.pop _).next fun v => (Composed.jump v).next fun _ => composed_release i

theorem composed_returnFar (i : Instruction) :
    Composed wide P (returnFar i) fun _ _ => True := by
  refine (Composed.pop _).next fun eip => (Composed.pop _).next fun cs => ?_
  exact (Composed.jumpFar _ _).next fun _ => composed_release i

theorem composed_iret {w : Width} (hw : wide = false → w ≠ .dword) :
    Composed wide P (iret w) fun _ _ => True := by
  refine (Composed.pop _).next fun eip => (Composed.pop _).next fun cs => ?_
  refine (Composed.pop _).next fun f => (Composed.jumpFar _ _).next fun _ => ?_
  exact .loadFlags f hw

theorem composed_jcc (c : Condition) (hi : i.Fits wide) :
    Composed wide P (jcc c i) fun _ _ => True :=
  .afterFlags fun _ => .ite (fun _ => composed_jumpNear hi) fun _ => .answer ()

theorem composed_loop (op : LoopOp) (hi : i.Fits wide) :
    Composed wide P (loop op i) fun _ _ => True := by
  refine .afterRegs fun g => ?_
  have hJump {P : Cpu → Prop} (count : UInt32) :
      Composed wide P (do if loopTaken op count (← flags).zero then jumpNear i)
        fun _ _ => True :=
    .afterFlags fun f => .ite (fun _ => composed_jumpNear hi) fun _ => .answer ()
  dsimp only
  split
  · exact hJump _
  · exact (Composed.writeRegister (Register.fits_ofGpr hi.addr32 .cx) _).next fun _ => hJump _

theorem composed_int (i : Instruction) : Composed wide P (int i) fun _ _ => True := by
  rw [int]
  split
  · refine (Composed.serve _).next fun served => ?_
    cases served with
    | true => exact .answer ()
    | false => exact composed_interrupt _ none true
  · exact .fault _

theorem composed_bound (hi : i.Fits wide) : Composed wide P (bound i) fun _ _ => True := by
  refine .afterPlace hi.dst hi.addr32 fun p hp _ => .afterReadPlace hp fun index => ?_
  refine .afterLocation hi.src hi.addr32 fun l hl => .afterReadMem hl fun lower => ?_
  exact .afterReadMem (hl.add _) fun upper => .ite (fun _ => .fault _) fun _ => .answer ()

theorem composed_hlt : Composed wide P hlt fun _ _ => True := by
  refine .afterGet (fun _ => rfl) fun m _ => .afterCheck fun _ => ?_
  have hHalt {P : Cpu → Prop} :
      Composed wide P (modifyCpu fun c => { c with halted := true }) fun _ _ => True :=
    .moves fun c => .activity c _ _ _ _ _
  refine .ite (fun _ => .afterLog ?_) fun _ => hHalt
  exact (Composed.moves fun c => .activity c _ _ _ _ _).next fun _ => hHalt

end Derivations

end X86.Exec
