import X86.Machine.Step
import X86.Proofs.Cpu.Sound
import X86.Proofs.Exec.Primitive

/-!
# Computations composed of moves

`Composed wide P x Q` derives a computation from its parts: looks at the processor, accesses to
memory and ports, single moves. `P` is what is known of the processor before the computation and `Q`
what is known of it, and of the answer, afterwards; a look moreover finds a sound processor. A narrow
model names no location with an offset of 32 bits, and no part breaks a rule of the machine.

A derivation is made once for each handler and says nothing yet about an invariant; what follows
from it is proved by induction over the derivation.
-/

namespace X86

/-- The offsets of the location fit a model of this width. -/
def Location.Fits (wide : Bool) (l : Location) : Prop := wide = false → l.wide = false

theorem Location.Fits.add {wide : Bool} {l : Location} (hl : l.Fits wide) (n : UInt32) :
    (l.add n).Fits wide := hl

/-- The operand exists on a model of this width. -/
@[simp] def Operand.Fits (wide : Bool) : Operand → Prop
  | .reg (.dword _) | .control _ | .debug _ => wide = true
  | _ => True

/-- The operand is no selector. -/
def Operand.IsPlain (o : Operand) : Prop := ∀ s, o ≠ .reg (.seg s)

/-- What the place names exists on a model of this width. -/
def Place.Fits (wide : Bool) : Place → Prop
  | .reg (.dword _) => wide = true
  | .mem l => l.Fits wide
  | _ => True

/-- The place is no selector. -/
def Place.IsPlain (p : Place) : Prop := ∀ s, p ≠ .reg (.seg s)

/-- Sizes and operands of the instruction exist on a model of this width. -/
structure Instruction.Fits (wide : Bool) (i : Instruction) : Prop where
  size : wide = false → i.size ≠ .dword
  addr32 : wide = false → i.addr32 = false
  dst : i.dst.Fits wide
  src : i.src.Fits wide
  src2 : i.src2.Fits wide

namespace Cpu

variable {wide addr32 : Bool} {o : Operand}

theorem fits_resolve (c : Cpu) (ho : o.Fits wide) (ha : wide = false → addr32 = false) :
    (c.resolve o addr32).Fits wide := by
  cases o with
  | mem w segment address => exact ha
  | reg r => cases r <;> exact ho
  | _ => exact trivial

theorem isPlain_resolve (c : Cpu) (ho : o.IsPlain) : (c.resolve o addr32).IsPlain := by
  intro s hs
  cases o <;> cases hs
  exact ho s rfl

end Cpu

namespace Exec

/-- A computation derived from its parts. -/
inductive Composed (wide : Bool) :
    {α : Type} → (Cpu → Prop) → Exec α → (α → Cpu → Prop) → Prop where
  | weaken {α : Type} {P P' : Cpu → Prop} {x : Exec α} {Q Q' : α → Cpu → Prop}
    (hx : Composed wide P x Q) (hP : ∀ c, P' c → P c) (hQ : ∀ a c, Q a c → Q' a c) :
    Composed wide P' x Q'
  | pure {α : Type} {P : Cpu → Prop} (a : α) :
    Composed wide P (Pure.pure a) fun b c => b = a ∧ P c
  | bind {α β : Type} {P : Cpu → Prop} {x : Exec α} {Q : α → Cpu → Prop} {f : α → Exec β}
    {R : β → Cpu → Prop} (hx : Composed wide P x Q)
    (hf : ∀ a c, Q a c → Composed wide (Q a) (f a) R) : Composed wide P (x >>= f) R
  | fault {α : Type} {P : Cpu → Prop} {Q : α → Cpu → Prop} (e : Exception) :
    Composed wide P (Exec.fault e) Q
  | attempt {P : Cpu → Prop} {x : Exec Unit} {Q : Unit → Cpu → Prop}
    (hx : Composed wide P x Q) : Composed wide P (Exec.attempt x) fun _ _ => True
  | look {α : Type} {P : Cpu → Prop} (g : Cpu → α) :
    Composed wide P (do return g (← cpu)) fun a c => (a = g c ∧ c.Sound wide) ∧ P c
  | move {P : Cpu → Prop} (g : Cpu → Cpu) (hg : ∀ c, P c → Cpu.Moves wide c (g c)) :
    Composed wide P (modifyCpu g) fun _ c' => ∃ c, P c ∧ c' = g c
  | log {P : Cpu → Prop} (e : LogEntry) : Composed wide P (Exec.log e) fun _ => P
  | readMem {P : Cpu → Prop} (l : Location) (w : Width) (hl : l.Fits wide) :
    Composed wide P (Exec.readMem l w) fun _ => P
  | writeMem {P : Cpu → Prop} (l : Location) (w : Width) (v : UInt32) (hl : l.Fits wide) :
    Composed wide P (Exec.writeMem l w v) fun _ => P
  | ask {α : Type} {P : Cpu → Prop} (g : List Device → Traffic → α) :
    Composed wide P (do let m ← get; return g m.devices m.bus.traffic) fun _ => P
  | exchange {P : Cpu → Prop} (t : Transaction) : Composed wide P (Exec.exchange t) fun _ => P
  | serve {P : Cpu → Prop} (vector : UInt8) :
    Composed wide P (serveInterrupt vector) fun _ => P
  | loadSegment {P : Cpu → Prop} (s : SegReg) (selector : UInt16) (hs : s.Fits wide)
    (hc : s = .cs → wide = false) :
    Composed wide P (Exec.loadSegment s selector) fun _ _ => True
  | jumpFar {P : Cpu → Prop} (selector : UInt16) (v : UInt32) :
    Composed wide P (Exec.jumpFar selector v) fun _ _ => True
  | vector {P : Cpu → Prop} (vector : UInt8) :
    Composed wide P (do let m ← get; return (m.cpu, m.bus.readVector m.cpu.idtr.base vector))
      fun a c => a.1 = c ∧ P c
  | gate {P : Cpu → Prop} (vector : UInt8) (software : Bool) (hw : wide = true) :
    Composed wide P (do let m ← get; return (m.cpu, m.cpu.openGate m.bus vector software))
      fun a c => a.1 = c ∧ P c
  | fetch {P : Cpu → Prop} :
    Composed wide P Exec.fetch fun i _ => ∃ c b, c.Sound wide ∧ i = Cpu.decodeNext c b

/-- A computation derived without knowing anything about the processor. -/
abbrev Composes (wide : Bool) {α : Type} (x : Exec α) : Prop :=
  Composed wide (fun _ => True) x fun _ _ => True

namespace Composed

variable {wide : Bool} {α β : Type} {P P' : Cpu → Prop} {x : Exec α} {f : α → Exec β}
  {Q : α → Cpu → Prop} {R : β → Cpu → Prop}

/-! ### Sequences -/

/-- Nothing needs to be known afterwards. -/
theorem forget (hx : Composed wide P x Q) : Composed wide P x fun _ _ => True :=
  hx.weaken (fun _ h => h) fun _ _ _ => trivial

/-- Nothing needs to be known before. -/
theorem anywhere (hx : Composed wide (fun _ => True) x Q) : Composed wide P x Q :=
  hx.weaken (fun _ _ => trivial) fun _ _ h => h

theorem answer (a : α) : Composed wide P (Pure.pure a : Exec α) fun _ _ => True := (pure a).forget

/-- What is known is kept by a first part that answers with something. -/
theorem next (hx : Composed wide P x fun _ => P') (hf : ∀ a, Composed wide P' (f a) R) :
    Composed wide P (x >>= f) R :=
  hx.bind fun a _ _ => hf a

theorem ite {p : Prop} [Decidable p] {y : Exec α} (hx : p → Composed wide P x Q)
    (hy : ¬ p → Composed wide P y Q) : Composed wide P (if p then x else y) Q := by
  by_cases hp : p
  · rw [if_pos hp]
    exact hx hp
  · rw [if_neg hp]
    exact hy hp

/-! ### Looks -/

theorem of_look {g : Cpu → α} (h : ∀ m, x m = .ok (g m.cpu) m) :
    Composed wide P x fun a c => (a = g c ∧ c.Sound wide) ∧ P c := by
  rw [show x = (do return g (← Exec.cpu)) from funext h]
  exact look g

theorem afterCpu {f : Cpu → Exec β} (hf : ∀ c, c.Sound wide → Composed wide (· = c) (f c) R) :
    Composed wide P (Exec.cpu >>= f) R := by
  refine (of_look (g := id) cpu_apply).bind fun a c h => ?_
  exact (hf a (h.1.1 ▸ h.1.2)).weaken (fun _ h => h.1.1.symm) fun _ _ h => h

theorem afterRegs {f : Registers → Exec β}
    (hf : ∀ g, Composed wide (·.regs = g) (f g) R) : Composed wide P (Exec.regs >>= f) R :=
  (of_look (g := Cpu.regs) regs_apply).bind fun g _ _ =>
    (hf g).weaken (fun _ h => h.1.1.symm) fun _ _ h => h

theorem afterFlags {k : Flags → Exec β}
    (hf : ∀ f, Composed wide (·.regs.flags = f) (k f) R) : Composed wide P (Exec.flags >>= k) R :=
  (of_look (g := fun c => c.regs.flags) flags_apply).bind fun f _ _ =>
    (hf f).weaken (fun _ h => h.1.1.symm) fun _ _ h => h

/-- A look at the machine for the sake of its processor. -/
theorem afterGet {f : Machine → Exec β} (hLocal : ∀ m, f m = f { cpu := m.cpu, bus := default })
    (hf : ∀ m, m.cpu.Sound wide → Composed wide (· = m.cpu) (f m) R) :
    Composed wide P (get >>= f) R := by
  rw [show (get >>= f) = (Exec.cpu >>= fun c => f { cpu := c, bus := default }) from
    funext fun m => congrFun (hLocal m) m]
  exact afterCpu fun c hc => hf { cpu := c, bus := default } hc

/-- Of the processor that has been looked at, the flags are known. -/
theorem of_flags {c : Cpu} (hx : Composed wide (·.regs.flags = c.regs.flags) x Q) :
    Composed wide (· = c) x Q :=
  hx.weaken (fun _ h => h ▸ rfl) fun _ _ h => h

theorem check (r : Except Exception α) : Composed wide P (Exec.check r) fun _ => P := by
  cases r with
  | ok a => exact (pure a).weaken (fun _ h => h) fun _ _ h => h.2
  | error e => exact fault e

/-! ### Operands -/

theorem afterPlace {i : Instruction} {o : Operand} {f : Place → Exec β} (ho : o.Fits wide)
    (ha : wide = false → i.addr32 = false)
    (hf : ∀ p, p.Fits wide → (o.IsPlain → p.IsPlain) → Composed wide P (f p) R) :
    Composed wide P (place i o >>= f) R := by
  refine (of_look (g := fun c => c.resolve o i.addr32) (place_apply i o)).bind fun p c h => ?_
  have hFits : p.Fits wide := h.1.1 ▸ c.fits_resolve ho ha
  have hPlain : o.IsPlain → p.IsPlain := fun ho => h.1.1 ▸ c.isPlain_resolve ho
  exact (hf p hFits hPlain).weaken (fun _ h => h.2) fun _ _ h => h

theorem readPlace {p : Place} (hp : p.Fits wide) (w : Width) :
    Composed wide P (Exec.readPlace p w) fun _ => P := by
  cases p with
  | reg r =>
    refine (of_look (g := fun c => w.truncate (c.regs.read r)) fun m => rfl).weaken
      (fun _ h => h) fun _ _ h => h.2
  | mem l => exact readMem l w hp
  | value v => exact check (.ok (w.truncate v))
  | nowhere => exact check (.error .invalidOpcode)

theorem afterReadPlace {p : Place} {w : Width} {f : UInt32 → Exec β} (hp : p.Fits wide)
    (hf : ∀ v, Composed wide P (f v) R) : Composed wide P (Exec.readPlace p w >>= f) R :=
  (readPlace hp w).next hf

theorem afterReadMem {l : Location} {w : Width} {f : UInt32 → Exec β} (hl : l.Fits wide)
    (hf : ∀ v, Composed wide P (f v) R) : Composed wide P (Exec.readMem l w >>= f) R :=
  (readMem l w hl).next hf

theorem afterCheck {r : Except Exception α} (hf : ∀ a, Composed wide P (f a) R) :
    Composed wide P (Exec.check r >>= f) R :=
  (check r).next hf

theorem afterWriteMem {l : Location} {w : Width} {v : UInt32} {f : Unit → Exec β}
    (hl : l.Fits wide) (hf : Composed wide P (f ()) R) :
    Composed wide P (Exec.writeMem l w v >>= f) R :=
  (writeMem l w v hl).next fun _ => hf

theorem afterLog {e : LogEntry} {f : Unit → Exec β} (hf : Composed wide P (f ()) R) :
    Composed wide P (Exec.log e >>= f) R :=
  (log e).next fun _ => hf

/-! ### Moves -/

/-- One move, whatever the processor. -/
theorem moves {g : Cpu → Cpu} (hg : ∀ c, Cpu.Moves wide c (g c)) :
    Composed wide P (modifyCpu g) fun _ _ => True :=
  (move g fun c _ => hg c).forget

theorem moveStack (v : Cpu → UInt32) :
    Composed wide P (modifyCpu fun c => c.setStackPointer (v c)) fun _ _ => True :=
  moves fun c => .single (.stack c (v c))

theorem jump (v : UInt32) : Composed wide P (modifyCpu (·.jump v)) fun _ _ => True :=
  moves fun c => .single (.jump c v)

/-- A part of the processor that a move keeps stays known. -/
theorem move_keeping {γ : Type} {t : Cpu → γ} {a : γ} {g : Cpu → Cpu}
    (hg : ∀ c, Cpu.Moves wide c (g c)) (hPart : ∀ c, t (g c) = t c) :
    Composed wide (t · = a) (modifyCpu g) fun _ c => t c = a := by
  refine (move g fun c _ => hg c).weaken (fun _ h => h) ?_
  rintro _ _ ⟨c, hc, rfl⟩
  exact (hPart c).trans hc

theorem writeRegister_keeping {γ : Type} {t : Cpu → γ} {a : γ} {r : Register}
    (hr : r.Fits wide) (v : UInt32) (hPart : ∀ c v, t (c.writeRegister r v) = t c) :
    Composed wide (t · = a) (Exec.writeRegister r v) fun _ c => t c = a :=
  move_keeping (fun c => .single (.register c r v hr)) fun c => hPart c v

theorem writeRegister {r : Register} (hr : r.Fits wide) (v : UInt32) :
    Composed wide P (Exec.writeRegister r v) fun _ _ => True :=
  moves fun c => .single (.register c r v hr)

/-- Flags with the system flags of the known ones. -/
theorem setFlags {f g : Flags} (hg : g.SameSystem f) :
    Composed wide (·.regs.flags = f) (Exec.setFlags g) fun _ _ => True :=
  (move _ fun c (hc : c.regs.flags = f) => .single (.status c g (hc ▸ hg))).forget

theorem loadFlags (v : UInt32) {w : Width} (hw : wide = false → w ≠ .dword) :
    Composed wide P (modifyCpu (·.loadFlags v w)) fun _ _ => True :=
  moves fun c => .single (.loadFlags c v w hw)

theorem holdInterrupts : Composed wide P Exec.holdInterrupts fun _ _ => True :=
  moves fun c => .activity c _ _ _ _ _

/-- What the registers keep of themselves through a write stays known through the write of an
operand. -/
theorem writePlace_keeping {γ : Type} {t : Registers → γ} {a : γ} {p : Place}
    (hp : p.Fits wide) (hPlain : p.IsPlain) (w : Width) (v : UInt32)
    (hPart : ∀ g r v, t (Registers.write g r v) = t g) :
    Composed wide (fun c => t c.regs = a) (Exec.writePlace p w v)
      fun _ c => t c.regs = a := by
  cases p with
  | reg r =>
    have hr : r.isSegment = false := by
      cases r with
      | seg s => exact absurd rfl (hPlain s)
      | _ => rfl
    have hFits : r.Fits wide := by
      refine ⟨hr, fun hw hWidth => ?_⟩
      cases r <;> cases hWidth
      exact absurd (hw.symm.trans hp) (by decide)
    rw [Exec.writePlace, if_neg (by simp [hr])]
    exact writeRegister_keeping (t := fun c => t c.regs) hFits _ fun c v =>
      hPart c.regs r v
  | mem l => exact writeMem l w v hp
  | value _ | nowhere => exact fault _

theorem writePlace {p : Place} (hp : p.Fits wide) (hPlain : p.IsPlain) (w : Width) (v : UInt32) :
    Composed wide P (Exec.writePlace p w v) fun _ _ => True :=
  (writePlace_keeping (t := fun _ => ()) (a := ()) hp hPlain w v fun _ _ _ => rfl).weaken
    (fun _ _ => rfl) fun _ _ _ => trivial

/-- The end of most handlers: the result goes to its place, then the flags are set. -/
theorem writeBack {p : Place} (hp : p.Fits wide) (hPlain : p.IsPlain) (w : Width) (v : UInt32)
    {f g : Flags} (hg : g.SameSystem f) :
    Composed wide (·.regs.flags = f) (do Exec.writePlace p w v; Exec.setFlags g)
      fun _ _ => True :=
  (writePlace_keeping (t := Registers.flags) hp hPlain w v Registers.flags_write).next fun _ =>
    setFlags hg

/-! ### The stack -/

theorem fits_stack {c : Cpu} (hc : c.Sound wide) (sp : UInt32) :
    (Location.of .ss sp c.stack32).Fits wide :=
  fun hw => hc.stack32_eq hw

theorem push (v : UInt32) (w : Width) : Composed wide P (Exec.push v w) fun _ _ => True :=
  afterCpu fun _ hc => afterWriteMem (fits_stack hc _) (moveStack fun _ => _)

/-- What the stack pointer has no part in stays known through a push. -/
theorem push_keeping {γ : Type} {t : Cpu → γ} {a : γ}
    (hPart : ∀ c v, t (Cpu.setStackPointer c v) = t c) (v : UInt32) (w : Width) :
    Composed wide (t · = a) (Exec.push v w) fun _ c => t c = a := by
  refine (of_look (g := id) cpu_apply).bind fun c _ h => ?_
  refine Composed.weaken (P := (t · = a)) ?_ (fun _ h => h.2) fun _ _ h => h
  have hc : c.Sound wide := h.1.1 ▸ h.1.2
  exact afterWriteMem (fits_stack hc _)
    (move_keeping (fun c => .single (.stack c _)) fun c => hPart c _)

theorem pop (w : Width) : Composed wide P (Exec.pop w) fun _ _ => True :=
  afterCpu fun _ hc => afterReadMem (fits_stack hc _) fun v =>
    (moveStack fun _ => _).next fun _ => answer v

theorem pushList (w : Width) (vs : List UInt32) :
    Composed wide P (Exec.pushList w vs) fun _ _ => True := by
  induction vs generalizing P with
  | nil => exact answer ()
  | cons v vs ih => exact (push v w).next fun _ => ih

theorem popList (w : Width) (n : Nat) (vs : List UInt32) :
    Composed wide P (Exec.popList w n vs) fun _ _ => True := by
  induction n generalizing P vs with
  | zero => exact answer vs
  | succ n ih => exact (pop w).next fun v => ih (v :: vs)

/-! ### Addresses and segments -/

/-- Only a location that fits the model is named. -/
theorem afterLocation {i : Instruction} {o : Operand} {f : Location → Exec β} (ho : o.Fits wide)
    (ha : wide = false → i.addr32 = false)
    (hf : ∀ l : Location, l.Fits wide → Composed wide P (f l) R) :
    Composed wide P (location i o >>= f) R := by
  rw [location, bind_assoc]
  refine afterPlace ho ha fun p hp _ => ?_
  cases p with
  | mem l => exact hf l hp
  | reg _ | value _ | nowhere => exact fault _

theorem readFar {l : Location} (hl : l.Fits wide) (w : Width) :
    Composed wide P (Exec.readFar l w) fun _ _ => True :=
  afterReadMem hl fun _ => afterReadMem (hl.add _) fun _ => answer _

theorem loadSegmentHeld {s : SegReg} (hs : s.Fits wide) (hc : s = .cs → wide = false)
    (selector : UInt16) : Composed wide P (Exec.loadSegmentHeld s selector) fun _ _ => True :=
  (loadSegment s selector hs hc).next fun _ =>
    ite (fun _ => holdInterrupts) fun _ => answer ()

/-! ### Ports -/

/-- What is known survives the answer. -/
theorem answer_keeping (a : α) : Composed wide P (Pure.pure a : Exec α) fun _ => P :=
  (pure a).weaken (fun _ h => h) fun _ _ h => h.2

/-- A computation that asks the devices and goes on with what they say. -/
theorem afterAsk (g : List Device → Traffic → α) {y : Exec β}
    (hy : ∀ m, y m = f (g m.devices m.bus.traffic) m) (hf : ∀ a, Composed wide P (f a) R) :
    Composed wide P y R := by
  rw [show y = ((do let m ← get; return g m.devices m.bus.traffic) >>= f) from funext hy]
  exact (ask g).next hf

/-- A computation that asks the devices, and goes on with the answer if there is one. -/
theorem afterAnswer (g : List Device → Traffic → Option α) {x : Exec β} {f : α → Exec β}
    {y : Exec β} (hy : ∀ m, y m = (g m.devices m.bus.traffic).elim x f m)
    (hx : Composed wide P x R) (hf : ∀ a, Composed wide P (f a) R) : Composed wide P y R := by
  refine afterAsk g (f := fun r => r.elim x f) hy fun r => ?_
  cases r with
  | none => exact hx
  | some a => exact hf a

theorem input8 (port : UInt16) : Composed wide P (Exec.input8 port) fun _ => P := by
  refine afterAnswer (fun devices traffic => firstAnswer devices (·.input8 traffic port))
    (x := do Exec.log (.unhandledInput port); return 0xFF)
    (f := fun a => do Exec.exchange (.input8 a.1 port); return a.2) (fun m => ?_) ?_ fun a => ?_
  · rw [Exec.input8, bind_of_ok (get_apply m)]
    cases firstAnswer m.devices (·.input8 m.bus.traffic port) <;> rfl
  · exact afterLog (answer_keeping _)
  · exact (exchange _).next fun _ => answer_keeping _

theorem input16 (port : UInt16) : Composed wide P (Exec.input16 port) fun _ => P := by
  refine afterAnswer (fun devices traffic => firstAnswer devices (·.input16 traffic port))
    (x := do
      let low ← Exec.input8 port
      let high ← Exec.input8 (port + 1)
      return word16 low high)
    (f := fun a => do Exec.exchange (.input16 a.1 port); return a.2) (fun m => ?_) ?_ fun a => ?_
  · rw [Exec.input16, bind_of_ok (get_apply m)]
    cases firstAnswer m.devices (·.input16 m.bus.traffic port) <;> rfl
  · exact (input8 port).next fun _ => (input8 _).next fun _ => answer_keeping _
  · exact (exchange _).next fun _ => answer_keeping _

theorem output8 (port : UInt16) (v : UInt8) :
    Composed wide P (Exec.output8 port v) fun _ => P := by
  refine afterAnswer
    (fun devices traffic => firstAnswer devices (agreement (·.output8 traffic port v)))
    (x := Exec.log (.unhandledOutput port v))
    (f := fun a => Exec.exchange (.output8 a.1 port v)) (fun m => ?_) ?_ fun a => ?_
  · rw [Exec.output8, bind_of_ok (get_apply m)]
    cases firstAnswer m.devices (agreement (·.output8 m.bus.traffic port v)) <;> rfl
  · exact log _
  · exact exchange _

theorem output16 (port : UInt16) (v : UInt16) :
    Composed wide P (Exec.output16 port v) fun _ => P := by
  refine afterAnswer
    (fun devices traffic => firstAnswer devices (agreement (·.output16 traffic port v)))
    (x := do Exec.output8 port v.toUInt8; Exec.output8 (port + 1) (v >>> 8).toUInt8)
    (f := fun a => Exec.exchange (.output16 a.1 port v)) (fun m => ?_) ?_ fun a => ?_
  · rw [Exec.output16, bind_of_ok (get_apply m)]
    cases firstAnswer m.devices (agreement (·.output16 m.bus.traffic port v)) <;> rfl
  · exact (output8 _ _).next fun _ => output8 _ _
  · exact exchange _

theorem input (port : UInt16) (w : Width) : Composed wide P (Exec.input port w) fun _ => P := by
  cases w with
  | byte => exact (input8 port).next fun _ => answer_keeping _
  | word => exact (input16 port).next fun _ => answer_keeping _
  | dword => exact (input16 port).next fun _ => (input16 _).next fun _ => answer_keeping _

theorem output (port : UInt16) (w : Width) (v : UInt32) :
    Composed wide P (Exec.output port w v) fun _ => P := by
  cases w with
  | byte => exact output8 port _
  | word => exact output16 port _
  | dword => exact (output16 port _).next fun _ => output16 _ _

theorem afterPort {i : Instruction} {o : Operand} {f : UInt16 → Exec β} (ho : o.Fits wide)
    (ha : wide = false → i.addr32 = false) (hf : ∀ n, Composed wide P (f n) R) :
    Composed wide P (port i o >>= f) R := by
  rw [port, bind_assoc]
  refine afterPlace ho ha fun p hp _ => ?_
  rw [bind_assoc]
  exact afterReadPlace hp fun v => (answer_keeping _).next hf

end Composed

end Exec

end X86
