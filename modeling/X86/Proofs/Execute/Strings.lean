import X86.Proofs.Execute.Data

/-!
# Footprints and derivations of string instructions

An element faults before its index registers move, and before it stores anything; only INS has
spoken to a device by then. A repeated instruction keeps what the elements
before the fault have done, so only its footprint is stated. Its derivation goes by induction on the
bound of the count.
-/

namespace X86.Exec

variable {K : ChangeKind → Prop} {S : Prop}

theorem isSegment_ofGpr (wide : Bool) (r : Gpr) : (Register.ofGpr wide r).isSegment = false := by
  cases wide <;> rfl

theorem isSegment_accumulator (w : Width) : (Register.accumulator w).isSegment = false := by
  cases w <;> rfl

theorem sure_advance (hG : K .general) (i : Instruction) (r : Gpr) : Sure K (advance i r) :=
  (Rewrites.write hG (isSegment_ofGpr i.addr32 r) fun _ => _).sure

theorem sure_compareElements (hF : K .flags) (w : Width) (a b : UInt32) :
    Sure K (compareElements w a b) :=
  Sure.flags.bind fun _ => .setFlags hF _

theorem restartable_stringElement (hG : K .general) (hF : K .flags) (op : StringOp)
    (hP : op = .ins ∨ op = .outs → K .port) (hS : op = .ins → S) (i : Instruction) :
    Restartable K S (stringElement op i) := by
  have hMove (r : Gpr) : Sure K (advance i r) := sure_advance hG i r
  refine .after_reads .cpu fun c => ?_
  cases op with
  | movs =>
    refine .after_reads (.readMem _ _) fun v => (Restartable.writeMem _ _ _).before_sure fun _ => ?_
    exact (hMove _).bind fun _ => hMove _
  | cmps =>
    refine .after_reads (.readMem _ _) fun a => .after_reads (.readMem _ _) fun b => ?_
    exact ((sure_compareElements hF _ _ _).bind fun _ => (hMove _).bind fun _ =>
      hMove _).restartable
  | scas =>
    refine .after_reads (.readMem _ _) fun b => ?_
    exact ((sure_compareElements hF _ _ _).bind fun _ => hMove _).restartable
  | lods =>
    refine .after_reads (.readMem _ _) fun v => ?_
    exact ((Sure.writeRegister hG (isSegment_accumulator _) v).bind fun _ => hMove _).restartable
  | stos => exact (Restartable.writeMem _ _ _).before_sure fun _ => hMove _
  | ins =>
    refine .after_reads (.check _) fun _ => ?_
    refine .after_quiet (.input (hP (.inl rfl)) (hS rfl) _ _) fun v => ?_
    exact (Restartable.writeMem _ _ _).before_sure fun _ => hMove _
  | outs =>
    refine .after_reads (.check _) fun _ => .after_reads (.readMem _ _) fun v => ?_
    exact ((Sure.output (hP (.inr rfl)) _ _ _).bind fun _ => hMove _).restartable

theorem Changes.repeatElement (hG : K .general) (mode : RepeatMode) {element : Exec Unit}
    (hE : Changes K element) {counter : Register} (hr : counter.isSegment = false) (n : Nat) :
    Changes K (repeatElement mode element counter n) := by
  induction n with
  | zero => exact .pure ()
  | succ n ih =>
    refine hE.bind fun _ => (Sure.writeRegister hG hr _).1.bind fun _ => ?_
    refine (Changes.modify fun m => .count m).bind fun _ => Reads.flags.changes.bind fun f => ?_
    split
    · exact .pure ()
    · exact ih

/-- A repeated instruction changes what its elements change, and its counter. -/
theorem Changes.repeated (hG : K .general) (mode : RepeatMode) {element : Exec Unit}
    (hE : Changes K element) (i : Instruction) : Changes K (repeated mode element i) :=
  Reads.regs.changes.bind fun _ => .repeatElement hG mode hE (isSegment_ofGpr _ _) _

/-! ### Derivations -/

section Derivations

variable {wide : Bool} {P : Cpu → Prop} {i : Instruction}

theorem composed_advance (hi : i.Fits wide) (r : Gpr) :
    Composed wide P (advance i r) fun _ _ => True :=
  .modifyRegs (.write (Register.fits_ofGpr hi.addr32 r) fun _ => _)

theorem composed_compareElements (w : Width) (a b : UInt32) :
    Composed wide P (compareElements w a b) fun _ _ => True :=
  .afterFlags fun _ => .setFlags (sameSystem_binary w a b _ .sub)

theorem composed_stringElement (op : StringOp) (hi : i.Fits wide) :
    Composed wide P (stringElement op i) fun _ _ => True := by
  have hMove {P : Cpu → Prop} (r : Gpr) : Composed wide P (advance i r) fun _ _ => True :=
    composed_advance hi r
  refine .afterCpu fun c _ => ?_
  have hSource : (c.stringSource i).Fits wide := hi.addr32
  have hTarget : (c.stringTarget i).Fits wide := hi.addr32
  cases op with
  | movs =>
    refine .afterReadMem hSource fun v => .afterWriteMem hTarget ?_
    exact (hMove _).next fun _ => hMove _
  | cmps =>
    refine .afterReadMem hSource fun a => .afterReadMem hTarget fun b => ?_
    exact (composed_compareElements _ _ _).next fun _ => (hMove _).next fun _ => hMove _
  | scas =>
    refine .afterReadMem hTarget fun b => ?_
    exact (composed_compareElements _ _ _).next fun _ => hMove _
  | lods =>
    refine .afterReadMem hSource fun v => ?_
    exact (Composed.writeRegister (Register.fits_accumulator hi.size) v).next fun _ => hMove _
  | stos => exact .afterWriteMem hTarget (hMove _)
  | ins =>
    refine .afterCheck fun _ => (Composed.input _ _).next fun v => ?_
    exact .afterWriteMem hTarget (hMove _)
  | outs =>
    refine .afterCheck fun _ => .afterReadMem hSource fun v => ?_
    exact (Composed.output _ _ _).next fun _ => hMove _

theorem composed_repeatElement (mode : RepeatMode) {element : Exec Unit}
    (hE : Composes wide element) {counter : Register} (hr : counter.Fits wide) (n : Nat) :
    Composed wide P (repeatElement mode element counter n) fun _ _ => True := by
  induction n generalizing P with
  | zero => exact .answer ()
  | succ n ih =>
    refine hE.anywhere.next fun _ => (Composed.writeRegister hr _).next fun _ => ?_
    refine (Composed.moves fun c => .activity c _ _ _ _ _).next fun _ => .afterFlags fun f => ?_
    exact .ite (fun _ => .answer ()) fun _ => ih

theorem composed_repeated (mode : RepeatMode) {element : Exec Unit} (hE : Composes wide element)
    (hi : i.Fits wide) : Composed wide P (repeated mode element i) fun _ _ => True :=
  .afterRegs fun _ => composed_repeatElement mode hE (Register.fits_ofGpr hi.addr32 .cx) _

end Derivations

end X86.Exec
