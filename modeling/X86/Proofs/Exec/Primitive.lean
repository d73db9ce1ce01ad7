import X86.Proofs.Cpu.Memory
import X86.Proofs.Exec.Change

/-!
# Footprints of the shared parts

What instructions are put together from: memory and operand access, the stack, segment loads, ports.
A write, a push or a segment load is refused before it stores anything, so each is restartable; pops
are quiet. So are several pushes or a far jump, because a snapshot holds the stack pointer and the
code segment, but where they fail half way, what was stored stays in memory.
-/

namespace X86.Exec

variable {K : ChangeKind → Prop} {S : Prop} {α β : Type}

theorem Retracted.code (hK : K .code) : Retracted K .code := ⟨hK, .inl rfl⟩

theorem Retracted.port (hK : K .port) : Retracted K .port := ⟨hK, .inr rfl⟩

/-! ### Looking -/

theorem Sure.get : Sure K get := ⟨Reads.get.changes, fun _ _ _ h => by cases h⟩

theorem Sure.cpu : Sure K cpu := ⟨Reads.cpu.changes, fun _ _ _ h => by cases h⟩

theorem Sure.flags : Sure K flags := ⟨Reads.flags.changes, fun _ _ _ h => by cases h⟩

theorem Reads.place (i : Instruction) (o : Operand) : Reads (place i o) :=
  Reads.cpu.bind fun _ => .pure _

theorem place_apply (i : Instruction) (o : Operand) (m : Machine) :
    place i o m = .ok (m.cpu.resolve o i.addr32) m := rfl

theorem Sure.place (i : Instruction) (o : Operand) : Sure K (place i o) :=
  ⟨(Reads.place i o).changes, fun _ _ _ h => by cases h⟩

theorem Reads.location (i : Instruction) (o : Operand) : Reads (location i o) := by
  refine (Reads.place i o).bind fun p => ?_
  cases p with
  | mem l => exact .pure l
  | reg _ | value _ | nowhere => exact .fault _

theorem Reads.readFar (l : Location) (w : Width) : Reads (readFar l w) :=
  (Reads.readMem l w).bind fun _ => (Reads.readMem _ _).bind fun _ => .pure _

theorem Reads.port (i : Instruction) (o : Operand) : Reads (port i o) :=
  (Reads.place i o).bind fun _ => (Reads.readPlace _ _).bind fun _ => .pure _

/-! ### Memory -/

theorem readMem_eq (l : Location) (w : Width) (m : Machine) :
    readMem l w m =
      if m.cpu.mayAccess l w.bytes .read then .ok (m.cpu.loadBytes m.bus l w) m
      else .error (.fault (Cpu.accessFault l.seg)) m := by
  rw [readMem_apply, Cpu.read_eq, Cpu.checkAccess]
  split <;> rfl

theorem writeMem_eq (l : Location) (w : Width) (v : UInt32) (m : Machine) :
    writeMem l w v m =
      if m.cpu.mayAccess l w.bytes .write then
        .ok () { m with bus := m.cpu.storeBytes m.bus l v w.bytes }
      else .error (.fault (Cpu.accessFault l.seg)) m := by
  rw [writeMem, bind_of_ok (cpu_apply m), Cpu.checkAccess]
  split <;> rfl

theorem Atomic.writeMem (l : Location) (w : Width) (v : UInt32) : Atomic (writeMem l w v) := by
  intro m s m' h
  rw [writeMem_eq] at h
  split at h <;> cases h
  rfl

/-- In real mode a read cannot fail. -/
theorem readMem_of_real {m : Machine} (hp : m.cpu.protectedMode = false) (l : Location)
    (w : Width) : readMem l w m = .ok (m.cpu.loadBytes m.bus l w) m := by
  rw [readMem_apply, Cpu.read_eq, Cpu.checkAccess_of_real hp]
  rfl

/-- In real mode a write cannot fail. -/
theorem writeMem_of_real {m : Machine} (hp : m.cpu.protectedMode = false) (l : Location)
    (w : Width) (v : UInt32) :
    writeMem l w v m = .ok () { m with bus := m.cpu.storeBytes m.bus l v w.bytes } := by
  rw [writeMem, bind_of_ok (cpu_apply m), Cpu.checkAccess_of_real hp]
  rfl

/-! ### Single changes -/

theorem Sure.log (e : LogEntry) : Sure K (log e) := .modify fun m => .note m e

theorem Quiet.log (e : LogEntry) : Quiet K S (log e) := fun m =>
  ⟨.single (.note m e), fun _ => rfl⟩

theorem Quiet.moveStack (v : Cpu → UInt32) :
    Quiet K S (modifyCpu fun c => c.setStackPointer (v c)) := fun m =>
  ⟨.single (.stack m (v m.cpu)), fun _ => rfl⟩

theorem Sure.moveStack (v : Cpu → UInt32) : Sure K (modifyCpu fun c => c.setStackPointer (v c)) :=
  .modify fun m => .stack m (v m.cpu)

theorem Sure.jump (v : UInt32) : Sure K (modifyCpu (·.jump v)) := .modify fun m => .jump m v

theorem Sure.setFlags (hK : K .flags) (f : Flags) : Sure K (setFlags f) :=
  .modify fun m => .flags m f hK

theorem Sure.writeRegister (hK : K .general) {r : Register} (hr : r.isSegment = false)
    (v : UInt32) : Sure K (writeRegister r v) :=
  .modify fun m => .register m r v hK hr

theorem Sure.holdInterrupts (hK : K .hold) : Sure K holdInterrupts := .modify fun m => .hold m hK

/-! ### Operands -/

/-- The bytes of a value are stored one by one. -/
theorem evolves_storeBytes (m : Machine) (l : Location) (v : UInt32) (n : Nat) :
    Evolves K m { m with bus := m.cpu.storeBytes m.bus l v n } := by
  induction n with
  | zero => exact .refl m
  | succ n ih =>
    rw [Cpu.storeBytes_succ]
    exact ih.trans (.single (.store _ _ _))

/-- A write is refused before its first byte. -/
theorem Restartable.writeMem (l : Location) (w : Width) (v : UInt32) :
    Restartable K S (writeMem l w v) := by
  refine .after_reads .cpu fun c => .after_reads (.check _) fun _ => Sure.restartable ?_
  exact ⟨fun m => evolves_storeBytes m l v w.bytes, fun _ _ _ h => by cases h⟩

theorem Changes.writeMem (l : Location) (w : Width) (v : UInt32) : Changes K (writeMem l w v) :=
  (Restartable.writeMem (S := True) l w v).changes

theorem byteOf_truncate (w : Width) (v : UInt32) {i : Nat} (hi : i < w.bytes) :
    byteOf (w.truncate v) i = byteOf v i := by
  rw [← UInt8.toNat_inj, toNat_byteOf, toNat_byteOf, Nat.shiftRight_eq_div_pow,
    Nat.shiftRight_eq_div_pow]
  cases w with
  | byte =>
    obtain rfl : i = 0 := by simp only [Width.bytes] at hi; omega
    rw [Width.toNat_truncate, Width.values]
    omega
  | word =>
    rw [Width.toNat_truncate, Width.values]
    obtain rfl | rfl : i = 0 ∨ i = 1 := by simp only [Width.bytes] at hi; omega
    · omega
    · omega
  | dword => rw [Width.truncate_dword]

/-- Only the bytes that are stored count. -/
theorem storeBytes_congr (c : Cpu) (b : Bus) (l : Location) {v v' : UInt32} {n : Nat}
    (h : ∀ i < n, byteOf v i = byteOf v' i) : c.storeBytes b l v n = c.storeBytes b l v' n := by
  induction n with
  | zero => rfl
  | succ n ih =>
    rw [Cpu.storeBytes_succ, Cpu.storeBytes_succ, ih fun i hi => h i (Nat.lt_succ_of_lt hi),
      h n (Nat.lt_succ_self n)]

theorem writeMem_truncate (l : Location) (w : Width) (v : UInt32) :
    writeMem l w (w.truncate v) = writeMem l w v := by
  have hStore (c : Cpu) (b : Bus) :
      c.storeBytes b l (w.truncate v) w.bytes = c.storeBytes b l v w.bytes :=
    storeBytes_congr c b l fun i hi => byteOf_truncate w v hi
  simp only [writeMem, hStore]

/-- A write to a register cannot fail, a write to memory fails before its first byte. -/
theorem Restartable.writePlace (hK : K .general) (p : Place) (w : Width) (v : UInt32) :
    Restartable K S (writePlace p w v) := by
  cases p with
  | reg r =>
    cases hr : r.isSegment with
    | false => simpa [Exec.writePlace, hr] using (Sure.writeRegister hK hr _).restartable
    | true =>
      have hThrow : Exec.writePlace (.reg r) w v = throw (.violation .segmentWrite) := by
        simp [Exec.writePlace, hr]
      rw [hThrow]
      exact Reads.restartable fun _ => rfl
  | mem l => exact .writeMem l w v
  | value _ | nowhere => exact .fault _

theorem Sure.writePlace_reg (hK : K .general) (r : Register) (w : Width) (v : UInt32) :
    Sure K (writePlace (.reg r) w v) := by
  refine ⟨(Restartable.writePlace (S := True) hK _ w v).1, ?_⟩
  intro m e m' h
  rw [Exec.writePlace] at h
  split at h <;> cases h

/-- What a register operand stands for is the register. -/
theorem eq_reg_of_answers {i : Instruction} {o : Operand} {r : Register} (ho : o = .reg r)
    {p : Place} (hp : Answers (place i o) p) : p = .reg r := by
  obtain ⟨m, m', h⟩ := hp
  rw [place_apply, ho] at h
  cases h
  rfl

/-! ### The stack -/

/-- A push is refused before anything has moved. -/
theorem Restartable.push (v : UInt32) (w : Width) : Restartable K S (push v w) := by
  refine .after_reads .cpu fun c => (Restartable.writeMem _ _ _).before_sure fun _ => ?_
  exact .moveStack fun _ => _

theorem Changes.push (v : UInt32) (w : Width) : Changes K (push v w) :=
  (Restartable.push (S := True) v w).changes

theorem Quiet.push (hS : S) (v : UInt32) (w : Width) : Quiet K S (push v w) :=
  (Changes.push v w).quiet hS

/-- In real mode a push cannot fail. -/
theorem push_of_real {m : Machine} (hp : m.cpu.protectedMode = false) (v : UInt32) (w : Width) :
    ∃ m', push v w m = .ok () m' :=
  ⟨_, (bind_of_ok (cpu_apply m)).trans (bind_of_ok (writeMem_of_real hp _ w v))⟩

/-- In real mode a pop cannot fail. -/
theorem pop_of_real {m : Machine} (hp : m.cpu.protectedMode = false) (w : Width) :
    pop w m =
      .ok (m.cpu.loadBytes m.bus (.of .ss m.cpu.stackPointer m.cpu.stack32) w)
        (m.withCpu (·.setStackPointer
          (wrapOffset m.cpu.stack32 (m.cpu.stackPointer + UInt32.ofNat w.bytes)))) :=
  (bind_of_ok (cpu_apply m)).trans ((bind_of_ok (readMem_of_real hp _ w)).trans rfl)

theorem push_truncate (v : UInt32) (w : Width) : push (w.truncate v) w = push v w := by
  simp only [push, writeMem_truncate]

theorem Quiet.pop (w : Width) : Quiet K S (pop w) := by
  refine Reads.cpu.quiet.bind fun c => (Reads.readMem _ _).quiet.bind fun v => ?_
  exact (Quiet.moveStack fun _ => _).bind fun _ => .pure v

theorem Changes.pop (w : Width) : Changes K (pop w) := (Quiet.pop (S := True) w).changes

theorem Changes.pushList (w : Width) (vs : List UInt32) : Changes K (pushList w vs) := by
  induction vs with
  | nil => exact .pure ()
  | cons v vs ih => exact (Changes.push v w).bind fun _ => ih

theorem Quiet.popList (w : Width) (n : Nat) (vs : List UInt32) : Quiet K S (popList w n vs) := by
  induction n generalizing vs with
  | zero => exact .pure vs
  | succ n ih => exact (Quiet.pop w).bind fun v => ih (v :: vs)

theorem Changes.popList (w : Width) (n : Nat) (vs : List UInt32) : Changes K (popList w n vs) :=
  (Quiet.popList (S := True) w n vs).changes

/-! ### Segment loads -/

/-- What a descriptor table must hold for a selector to be loaded. -/
theorem lookupSegment_eq_ok {c : Cpu} {b : Bus} {s : SegReg} {selector : UInt16}
    {entry : UInt32} {d : Descriptor} :
    c.lookupSegment b s selector = .ok (entry, d) ↔
      selector &&& 7 = 0 ∧ c.gdtr.entryAddress? selector.toUInt32 = some entry ∧
        Descriptor.ofBytes (fun i => b.read8 (entry + UInt32.ofNat i)) = d ∧
        d.suits s = true ∧ d.isPresent = true := by
  rw [Cpu.lookupSegment]
  by_cases hn : selector &&& 7 = 0
  · cases ha : c.gdtr.entryAddress? selector.toUInt32 with
    | none => simp [hn]
    | some a =>
      simp only [hn, ne_eq, not_true_eq_false, if_false, Option.some.injEq, true_and]
      constructor
      · intro h
        split at h
        · cases h
        · rename_i hs
          split at h
          · cases h
          · rename_i hp
            cases h
            exact ⟨rfl, rfl, by simpa using hs, by simpa using hp⟩
      · rintro ⟨rfl, rfl, hs, hp⟩
        simp [hs, hp]
  · simp [hn]

/-- The machine after a table entry has been marked as loaded. -/
def markEntry (m : Machine) (entry : UInt32) (d : Descriptor) : Machine :=
  if d.isAccessed then m else { m with bus := m.bus.write8 (entry + 5) d.markAccessed.access }

theorem cpu_markEntry (m : Machine) (entry : UInt32) (d : Descriptor) :
    (markEntry m entry d).cpu = m.cpu := by
  rw [markEntry]
  split <;> rfl

theorem evolves_markEntry (m : Machine) (entry : UInt32) (d : Descriptor) :
    Evolves K m (markEntry m entry d) := by
  rw [markEntry]
  split
  · exact .refl m
  · exact .single (.store m _ _)

theorem loadEntry_apply (s : SegReg) (selector : UInt16) (entry : UInt32) (d : Descriptor)
    (m : Machine) :
    loadEntry s selector entry d m =
      .ok () (((markEntry m entry d).record (.segmentLoaded s selector d.markAccessed)).withCpu
        (·.loadCache s selector d.markAccessed)) := by
  cases hd : d.isAccessed <;> simp [loadEntry, markEntry, hd, bind_apply]

/-- A segment load ends in one of three ways, or it faults before it changes anything. -/
theorem loadSegment_cases (s : SegReg) (selector : UInt16) (m : Machine) :
    (m.cpu.protectedMode = false ∧
      loadSegment s selector m = .ok () (m.withCpu (·.loadRealSegment s selector))) ∨
    (m.cpu.protectedMode = true ∧ (s ≠ .ss ∧ s ≠ .cs) ∧ Cpu.selectorIndex selector = 0 ∧
      loadSegment s selector m = .ok () (m.withCpu (·.loadCache s selector {}))) ∨
    (∃ entry d, m.cpu.protectedMode = true ∧
      m.cpu.lookupSegment m.bus s selector = .ok (entry, d) ∧
      loadSegment s selector m = loadEntry s selector entry d m) ∨
    (∃ e, m.cpu.protectedMode = true ∧ loadSegment s selector m = .error (.fault e) m) := by
  cases hp : m.cpu.protectedMode with
  | false => exact .inl ⟨rfl, by simp [loadSegment, bind_apply, hp]⟩
  | true =>
    refine .inr ?_
    by_cases hn : Cpu.selectorIndex selector = 0
    · by_cases hs : s = .ss ∨ s = .cs
      · exact .inr (.inr ⟨.generalProtection 0, rfl, by
          simp [loadSegment, bind_apply, hp, hn, hs]⟩)
      · exact .inl ⟨rfl, not_or.1 hs, hn, by simp [loadSegment, bind_apply, hp, hn, hs]⟩
    · cases hl : m.cpu.lookupSegment m.bus s selector with
      | ok r =>
        exact .inr (.inl ⟨r.1, r.2, rfl, rfl, by
          simp [loadSegment, bind_apply, hp, hn, hl, check_ok]⟩)
      | error e =>
        exact .inr (.inr ⟨e, rfl, by simp [loadSegment, bind_apply, hp, hn, hl, check_error]⟩)

/-- A segment load that fails changes nothing. -/
theorem Atomic.loadSegment (s : SegReg) (selector : UInt16) : Atomic (loadSegment s selector) := by
  intro m stop m' hf
  rcases loadSegment_cases s selector m with
    ⟨-, h⟩ | ⟨-, -, -, h⟩ | ⟨entry, d, -, -, h⟩ | ⟨e, -, h⟩
  · cases h.symm.trans hf
  · cases h.symm.trans hf
  · cases (h.trans (loadEntry_apply s selector entry d m)).symm.trans hf
  · cases h.symm.trans hf
    rfl

theorem loadSegment_of_real {m : Machine} (hp : m.cpu.protectedMode = false) (s : SegReg)
    (selector : UInt16) :
    loadSegment s selector m = .ok () (m.withCpu (·.loadRealSegment s selector)) := by
  rcases loadSegment_cases s selector m with ⟨-, h⟩ | ⟨hOn, -⟩ | ⟨-, -, hOn, -⟩ | ⟨-, hOn, -⟩
  · exact h
  all_goals cases hp.symm.trans hOn

theorem jumpFar_of_real {m : Machine} (hp : m.cpu.protectedMode = false) (selector : UInt16)
    (eip : UInt32) :
    jumpFar selector eip m =
      .ok () (m.withCpu fun c => (c.loadRealSegment .cs selector).jump eip) :=
  (bind_of_ok (loadSegment_of_real hp .cs selector)).trans rfl

theorem Restartable.loadSegment (s : SegReg) (hK : K (.ofSegment s)) (selector : UInt16) :
    Restartable K S (loadSegment s selector) := by
  constructor
  · intro m
    rcases loadSegment_cases s selector m with
      ⟨hp, h⟩ | ⟨hp, hs, hn, h⟩ | ⟨entry, d, hp, hl, h⟩ | ⟨e, hp, h⟩
    · rw [after_of_ok h]
      exact .single (.realSegment m s selector hK hp)
    · rw [after_of_ok h]
      have hSeg : K .segment := by
        cases s <;> first | exact hK | exact absurd rfl hs.2
      exact .single (.nullSegment m s selector hSeg hp hs hn)
    · obtain ⟨hn, -, -, hd, hd'⟩ := lookupSegment_eq_ok.1 hl
      rw [after_of_ok (h.trans (loadEntry_apply s selector entry d m))]
      refine (evolves_markEntry m entry d).trans ((Evolves.single (.note _ _)).trans
        (.single (.tableSegment _ s selector d hK ?_ hn hd hd')))
      rwa [Machine.record, cpu_markEntry]
    · rw [after_of_error h]
      exact .refl m
  · intro m e m' hf
    rw [Atomic.loadSegment s selector m _ m' hf]
    exact .refl m

theorem Atomic.jumpFar (selector : UInt16) (eip : UInt32) : Atomic (jumpFar selector eip) :=
  (Atomic.loadSegment .cs selector).before_modifyCpu _

theorem Restartable.jumpFar (hK : K .code) (selector : UInt16) (eip : UInt32) :
    Restartable K S (jumpFar selector eip) :=
  (Restartable.loadSegment .cs hK selector).before_sure fun _ => .jump eip

theorem Changes.jumpFar (hK : K .code) (selector : UInt16) (eip : UInt32) :
    Changes K (jumpFar selector eip) :=
  (Restartable.jumpFar (S := True) hK selector eip).changes

/-- A snapshot takes a new code segment back, but not the mark in its table entry. -/
theorem Quiet.jumpFar (hK : K .code) (hS : S) (selector : UInt16) (eip : UInt32) :
    Quiet K S (jumpFar selector eip) :=
  (Changes.jumpFar (.code hK) selector eip).quiet hS

/-- In protected mode a far jump takes a ring 0 selector. -/
theorem jumpFar_protected {selector : UInt16} {eip : UInt32} {m m' : Machine}
    (hp : m.cpu.protectedMode = true) (h : jumpFar selector eip m = .ok () m') :
    selector &&& 7 = 0 ∧ ∃ d, m'.cpu = (m.cpu.loadCache .cs selector d).jump eip := by
  obtain ⟨_, m₁, hLoad, hJump⟩ := bind_eq_ok.1 h
  cases hJump
  rcases loadSegment_cases .cs selector m with
    ⟨hReal, -⟩ | ⟨-, hs, -, -⟩ | ⟨entry, d, -, hLookup, hEntry⟩ | ⟨e, -, hError⟩
  · cases hp.symm.trans hReal
  · exact absurd rfl hs.2
  · cases (hEntry.trans (loadEntry_apply ..)).symm.trans hLoad
    refine ⟨(lookupSegment_eq_ok.1 hLookup).1, d.markAccessed, ?_⟩
    simp only [Machine.withCpu, Machine.record, cpu_markEntry]
  · cases hError.symm.trans hLoad

theorem Restartable.loadSegmentHeld (s : SegReg) (hK : K (.ofSegment s)) (hH : s = .ss → K .hold)
    (selector : UInt16) : Restartable K S (loadSegmentHeld s selector) := by
  refine (Restartable.loadSegment s hK selector).before_sure fun _ => ?_
  by_cases hs : s = .ss
  · rw [if_pos hs]
    exact .holdInterrupts (hH hs)
  · rw [if_neg hs]
    exact .pure ()

/-! ### Ports

A port access cannot fail. -/

theorem Sure.exchange (hK : K .port) (t : Transaction) : Sure K (exchange t) :=
  .modify fun m => .exchange m t hK

theorem Sure.input8 (hK : K .port) (port : UInt16) : Sure K (input8 port) := by
  refine Sure.get.bind fun m => ?_
  split
  · exact (Sure.exchange hK _).bind fun _ => .pure _
  · exact (Sure.log _).bind fun _ => .pure _

theorem Sure.input16 (hK : K .port) (port : UInt16) : Sure K (input16 port) := by
  refine Sure.get.bind fun m => ?_
  split
  · exact (Sure.exchange hK _).bind fun _ => .pure _
  · exact (Sure.input8 hK _).bind fun _ => (Sure.input8 hK _).bind fun _ => .pure _

theorem Sure.output8 (hK : K .port) (port : UInt16) (v : UInt8) : Sure K (output8 port v) := by
  refine Sure.get.bind fun m => ?_
  split
  · exact .exchange hK _
  · exact .log _

theorem Sure.output16 (hK : K .port) (port : UInt16) (v : UInt16) : Sure K (output16 port v) := by
  refine Sure.get.bind fun m => ?_
  split
  · exact .exchange hK _
  · exact (Sure.output8 hK _ _).bind fun _ => .output8 hK _ _

theorem Sure.input (hK : K .port) (port : UInt16) (w : Width) : Sure K (input port w) := by
  cases w with
  | byte => exact (Sure.input8 hK port).bind fun _ => .pure _
  | word => exact (Sure.input16 hK port).bind fun _ => .pure _
  | dword => exact (Sure.input16 hK port).bind fun _ => (Sure.input16 hK _).bind fun _ => .pure _

/-- What a device was asked is not taken back. -/
theorem Quiet.input (hK : K .port) (hS : S) (port : UInt16) (w : Width) :
    Quiet K S (input port w) :=
  (Sure.input (K := Retracted K) (.port hK) port w).changes.quiet hS

theorem Sure.output (hK : K .port) (port : UInt16) (w : Width) (v : UInt32) :
    Sure K (output port w v) := by
  cases w with
  | byte => exact .output8 hK port _
  | word => exact .output16 hK port _
  | dword => exact (Sure.output16 hK port _).bind fun _ => .output16 hK _ _

end X86.Exec
