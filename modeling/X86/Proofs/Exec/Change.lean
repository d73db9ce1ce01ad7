import Mathlib.Logic.Relation
import X86.Execute.Dispatch
import X86.Proofs.Exec.Basic

/-!
# What a computation changes

`Change K` lists the single changes that instructions and deliveries make to a machine. Some of them
everybody makes; the others are of a kind, and `K` says which kinds are allowed. A computation is
described by the kinds that it needs, and an invariant follows from its one step: each change keeps
it.

* `Evolves.of_change`: what every allowed change keeps, a run of changes keeps.
* `Exec.Changes K x`: the computation makes no changes but those of kinds `K`.
* `Exec.Quiet K S x`: moreover a snapshot takes all of them back, and memory and devices are left
  alone unless `S`.
* `Exec.Sure K x`: the computation raises no fault.
* `Exec.Restartable K S x`: **a fault follows only changes that a snapshot takes back, and finds
  memory and devices as they were unless `S`.** The quiet part of an instruction comes first and its
  sure part last: `Restartable.after_quiet`, `Restartable.before_sure`.
-/

namespace X86

/-- The changes that not every computation makes. -/
inductive ChangeKind where
  /-- A general register is written. -/
  | general
  /-- The flags are written. -/
  | flags
  /-- The code segment register is loaded. -/
  | code
  /-- Another segment register is loaded. -/
  | segment
  /-- Interrupts are held off. -/
  | hold
  /-- A device answers a port access. -/
  | port
  /-- A control, debug or table register is written. -/
  | system
  /-- The processor begins to wait. -/
  | halt
  /-- The processor dies. -/
  | death
  /-- A device serves a software interrupt. -/
  | service
  /-- An instruction is taken back. -/
  | restore
deriving DecidableEq, Repr

/-- The kind of a segment load. -/
def ChangeKind.ofSegment : SegReg → ChangeKind
  | .cs => code
  | _ => segment

/-- A single change, of a kind in `K` unless all computations make it. -/
inductive Change (K : ChangeKind → Prop) : Machine → Machine → Prop where
  | store (m : Machine) (addr : UInt32) (v : UInt8) :
    Change K m { m with bus := m.bus.write8 addr v }
  | note (m : Machine) (e : LogEntry) : Change K m (m.record e)
  | stack (m : Machine) (v : UInt32) : Change K m (m.withCpu (·.setStackPointer v))
  | jump (m : Machine) (v : UInt32) : Change K m (m.withCpu (·.jump v))
  | count (m : Machine) : Change K m (m.withCpu fun c => { c with cycles := c.cycles + 1 })
  | register (m : Machine) (r : Register) (v : UInt32) (hK : K .general)
    (hr : r.isSegment = false) : Change K m (m.withCpu (·.writeRegister r v))
  | flags (m : Machine) (f : Flags) (hK : K .flags) : Change K m (m.withCpu (·.setFlags f))
  | realSegment (m : Machine) (s : SegReg) (selector : UInt16) (hK : K (.ofSegment s))
    (hp : m.cpu.protectedMode = false) : Change K m (m.withCpu (·.loadRealSegment s selector))
  | nullSegment (m : Machine) (s : SegReg) (selector : UInt16) (hK : K .segment)
    (hp : m.cpu.protectedMode = true) (hs : s ≠ .ss ∧ s ≠ .cs)
    (hn : Cpu.selectorIndex selector = 0) : Change K m (m.withCpu (·.loadCache s selector {}))
  | tableSegment (m : Machine) (s : SegReg) (selector : UInt16) (d : Descriptor)
    (hK : K (.ofSegment s)) (hp : m.cpu.protectedMode = true) (hn : selector &&& 7 = 0)
    (hd : d.suits s = true) (hd' : d.isPresent = true) :
    Change K m (m.withCpu (·.loadCache s selector d.markAccessed))
  | hold (m : Machine) (hK : K .hold) : Change K m (m.withCpu fun c => { c with shadow := true })
  | exchange (m : Machine) (t : Transaction) (hK : K .port) :
    Change K m { m with bus := m.bus.record t }
  | control (m : Machine) (n : ControlReg) (v : UInt32) (hK : K .system) :
    Change K m (m.withCpu fun c => { c with regs := c.regs.writeControl n v })
  | debug (m : Machine) (n : DebugReg) (v : UInt32) (hK : K .system) :
    Change K m (m.withCpu fun c => { c with regs := c.regs.writeDebug n v })
  | table (m : Machine) (t : SystemTable) (r : TableRegister) (hK : K .system) :
    Change K m (m.withCpu (·.setTable t r))
  | selector (m : Machine) (s : SystemSegment) (v : UInt16) (hK : K .system) :
    Change K m (m.withCpu (·.setSystemSelector s v))
  | halt (m : Machine) (hK : K .halt) : Change K m (m.withCpu fun c => { c with halted := true })
  | die (m : Machine) (hK : K .death) : Change K m (m.withCpu fun c => { c with dead := true })
  | serve (m : Machine) (n : Nat) (d : Device) (vector : UInt8) (hK : K .service)
    (hd : d ∈ m.devices) :
    Change K m
      { m with
        cpu := (d.serve vector m.cpu (m.bus.record (.service n vector))).cpu
        bus := (d.serve vector m.cpu (m.bus.record (.service n vector))).bus
        exitRequested :=
          m.exitRequested || (d.serve vector m.cpu (m.bus.record (.service n vector))).exit }
  | restore (m : Machine) (s : Snapshot) (hK : K .restore) : Change K m (m.withCpu (·.restore s))

namespace Change

variable {K L : ChangeKind → Prop} {m m' : Machine}

theorem mono (hKL : ∀ k, K k → L k) (h : Change K m m') : Change L m m' := by
  cases h <;> constructor <;> first | assumption | exact hKL _ ‹_›

end Change

/-- Any number of changes. -/
def Evolves (K : ChangeKind → Prop) : Machine → Machine → Prop :=
  Relation.ReflTransGen (Change K)

namespace Evolves

variable {K L : ChangeKind → Prop} {m m₁ m' : Machine}

theorem refl (m : Machine) : Evolves K m m := Relation.ReflTransGen.refl

theorem single (h : Change K m m') : Evolves K m m' := Relation.ReflTransGen.single h

theorem trans (h : Evolves K m m₁) (h' : Evolves K m₁ m') : Evolves K m m' :=
  Relation.ReflTransGen.trans h h'

theorem mono (hKL : ∀ k, K k → L k) (h : Evolves K m m') : Evolves L m m' :=
  Relation.ReflTransGen.mono (fun _ _ => Change.mono hKL) _ _ h

/-- What every allowed change keeps, a run of changes keeps. -/
theorem of_change {R : Machine → Machine → Prop} (hRefl : ∀ m, R m m)
    (hTrans : ∀ {m m₁ m'}, R m m₁ → R m₁ m' → R m m')
    (hStep : ∀ {m m'}, Change K m m' → R m m') (h : Evolves K m m') : R m m' := by
  induction h with
  | refl => exact hRefl _
  | tail _ hLast ih => exact hTrans ih (hStep hLast)

/-- A part of the machine that every allowed change keeps, a run of changes keeps. -/
theorem eq_of_change {α : Type} (part : Machine → α)
    (hStep : ∀ {m m'}, Change K m m' → part m' = part m) (h : Evolves K m m') :
    part m' = part m :=
  of_change (R := fun m m' => part m' = part m) (fun _ => rfl) (fun h₁ h₂ => h₂.trans h₁) hStep h

end Evolves

namespace Exec

variable {K L : ChangeKind → Prop} {S : Prop} {α β : Type} {x : Exec α} {f : α → Exec β}
  {m m₁ m' : Machine}

/-! ### Footprints -/

/-- The computation makes no changes but those of kinds `K`. -/
def Changes (K : ChangeKind → Prop) (x : Exec α) : Prop := ∀ m, Evolves K m (after x m)

theorem evolves_bind (hx : Evolves K m (after x m))
    (hf : ∀ a m₁, x m = .ok a m₁ → Evolves K m₁ (after (f a) m₁)) :
    Evolves K m (after (x >>= f) m) := by
  cases h : x m with
  | ok a m₁ =>
    rw [after_of_ok h] at hx
    rw [after_bind_of_ok h]
    exact hx.trans (hf a m₁ h)
  | error s m₁ =>
    rw [after_of_error h] at hx
    rw [after_bind_of_error h]
    exact hx

/-- `a` is an answer of the computation on some machine. -/
def Answers (x : Exec α) (a : α) : Prop := ∃ m m', x m = .ok a m'

theorem Reads.changes (hx : Reads x) : Changes K x := by
  intro m
  rw [hx m]
  exact .refl m

namespace Changes

theorem mono (hKL : ∀ k, K k → L k) (hx : Changes K x) : Changes L x := fun m => (hx m).mono hKL

theorem bind_answer (hx : Changes K x) (hf : ∀ a, Answers x a → Changes K (f a)) :
    Changes K (x >>= f) := fun m =>
  evolves_bind (hx m) fun a m₁ h => hf a ⟨m, m₁, h⟩ m₁

theorem bind (hx : Changes K x) (hf : ∀ a, Changes K (f a)) : Changes K (x >>= f) :=
  hx.bind_answer fun a _ => hf a

theorem pure (a : α) : Changes K (Pure.pure a : Exec α) := (Reads.pure a).changes

/-- One change, whatever the machine. -/
theorem modify {g : Machine → Machine} (hg : ∀ m, Change K m (g m)) :
    Changes K (modify g : Exec Unit) := fun m => .single (hg m)

theorem of_ok {a : α} (hx : Changes K x) (h : x m = .ok a m') : Evolves K m m' := by
  have := hx m
  rwa [after_of_ok h] at this

theorem of_error {s : Stop} (hx : Changes K x) (h : x m = .error s m') : Evolves K m m' := by
  have := hx m
  rwa [after_of_error h] at this

theorem attempt {x : Exec Unit} (hx : Changes K x) : Changes K (attempt x) := by
  intro m
  rw [after_attempt]
  exact hx m

end Changes

/-! ### Quiet and sure computations -/

/-- The kinds in `K` that a snapshot takes back, devices aside. -/
def Retracted (K : ChangeKind → Prop) (k : ChangeKind) : Prop := K k ∧ (k = .code ∨ k = .port)

/-- Nothing has changed but what a snapshot takes back, and memory and devices only if `S`. -/
structure Reverts (K : ChangeKind → Prop) (S : Prop) (m m' : Machine) : Prop where
  evolves : Evolves (Retracted K) m m'
  bus_eq : ¬ S → m'.bus = m.bus

namespace Reverts

theorem refl (m : Machine) : Reverts K S m m := ⟨.refl m, fun _ => rfl⟩

theorem trans (h : Reverts K S m m₁) (h' : Reverts K S m₁ m') : Reverts K S m m' :=
  ⟨h.evolves.trans h'.evolves, fun hS => (h'.bus_eq hS).trans (h.bus_eq hS)⟩

end Reverts

/-- The computation makes no changes but those of kinds `K` that a snapshot takes back, and none of
memory and devices unless `S`. -/
def Quiet (K : ChangeKind → Prop) (S : Prop) (x : Exec α) : Prop :=
  ∀ m, Reverts K S m (after x m)

theorem Reads.quiet (hx : Reads x) : Quiet K S x := by
  intro m
  rw [hx m]
  exact .refl m

namespace Quiet

theorem changes (hx : Quiet K S x) : Changes K x := fun m => (hx m).evolves.mono fun _ h => h.1

theorem of_ok {a : α} (hx : Quiet K S x) (h : x m = .ok a m') : Reverts K S m m' := by
  have := hx m
  rwa [after_of_ok h] at this

theorem of_error {s : Stop} (hx : Quiet K S x) (h : x m = .error s m') : Reverts K S m m' := by
  have := hx m
  rwa [after_of_error h] at this

theorem bind (hx : Quiet K S x) (hf : ∀ a, Quiet K S (f a)) : Quiet K S (x >>= f) := by
  intro m
  cases h : x m with
  | ok a m₁ =>
    rw [after_bind_of_ok h]
    exact (hx.of_ok h).trans (hf a m₁)
  | error s m₁ =>
    rw [after_bind_of_error h]
    exact hx.of_error h

theorem pure (a : α) : Quiet K S (Pure.pure a : Exec α) := (Reads.pure a).quiet

end Quiet

/-- Where stores and exchanges are allowed, only the kinds of change count. -/
theorem Changes.quiet (hx : Changes (Retracted K) x) (hS : S) : Quiet K S x := fun m =>
  ⟨hx m, fun h => absurd hS h⟩

/-- The computation makes no changes but those of kinds `K`, and raises no fault. -/
structure Sure (K : ChangeKind → Prop) (x : Exec α) : Prop where
  changes : Changes K x
  faultless : ∀ m e m', x m ≠ .error (.fault e) m'

namespace Sure

theorem pure (a : α) : Sure K (Pure.pure a : Exec α) := ⟨.pure a, fun _ _ _ h => by cases h⟩

theorem modify {g : Machine → Machine} (hg : ∀ m, Change K m (g m)) :
    Sure K (modify g : Exec Unit) := ⟨.modify hg, fun _ _ _ h => by cases h⟩

theorem bind_answer (hx : Sure K x) (hf : ∀ a, Answers x a → Sure K (f a)) :
    Sure K (x >>= f) := by
  refine ⟨hx.1.bind_answer fun a ha => (hf a ha).1, ?_⟩
  intro m e m' h
  rcases bind_eq_error.1 h with h | ⟨a, m₁, hxm, h⟩
  · exact hx.2 m e m' h
  · exact (hf a ⟨m, m₁, hxm⟩).2 m₁ e m' h

theorem bind (hx : Sure K x) (hf : ∀ a, Sure K (f a)) : Sure K (x >>= f) :=
  hx.bind_answer fun a _ => hf a

/-- A part that is left out under some condition. -/
theorem optional {p : Prop} [Decidable p] {y : Exec Unit} {k : Unit → Exec β} (hy : Sure K y)
    (hk : Sure K (k ())) : Sure K (if p then y >>= k else k ()) := by
  by_cases hp : p
  · rw [if_pos hp]
    exact hy.bind fun _ => hk
  · rwa [if_neg hp]

theorem attempt {x : Exec Unit} (hx : Changes K x) : Sure K (Exec.attempt x) :=
  ⟨hx.attempt, attempt_ne_fault x⟩

end Sure

/-- **The computation makes no changes but those of kinds `K`. Where it raises a fault, it has made
only those that a snapshot takes back, and none of memory and devices unless `S`.** -/
structure Restartable (K : ChangeKind → Prop) (S : Prop) (x : Exec α) : Prop where
  changes : Changes K x
  reverts : ∀ m e m', x m = .error (.fault e) m' → Reverts K S m m'

theorem Quiet.restartable (hx : Quiet K S x) : Restartable K S x :=
  ⟨hx.changes, fun _ _ _ h => hx.of_error h⟩

theorem Reads.restartable (hx : Reads x) : Restartable K S x := hx.quiet.restartable

theorem Sure.restartable (hx : Sure K x) : Restartable K S x :=
  ⟨hx.1, fun m e m' h => absurd h (hx.2 m e m')⟩

namespace Restartable

theorem after_answer (hx : Quiet K S x) (hf : ∀ a, Answers x a → Restartable K S (f a)) :
    Restartable K S (x >>= f) := by
  refine ⟨hx.changes.bind_answer fun a ha => (hf a ha).1, ?_⟩
  intro m e m' h
  rcases bind_eq_error.1 h with h | ⟨a, m₁, hxm, h⟩
  · exact hx.of_error h
  · exact (hx.of_ok hxm).trans ((hf a ⟨m, m₁, hxm⟩).2 m₁ e m' h)

theorem after_quiet (hx : Quiet K S x) (hf : ∀ a, Restartable K S (f a)) :
    Restartable K S (x >>= f) :=
  after_answer hx fun a _ => hf a

theorem before_sure (hx : Restartable K S x) (hf : ∀ a, Sure K (f a)) :
    Restartable K S (x >>= f) := by
  refine ⟨hx.1.bind fun a => (hf a).1, ?_⟩
  intro m e m' h
  rcases bind_eq_error.1 h with h | ⟨a, m₁, -, h⟩
  · exact hx.2 m e m' h
  · exact absurd h ((hf a).2 m₁ e m')

theorem ite {p : Prop} [Decidable p] {y : Exec α} (hx : Restartable K S x)
    (hy : Restartable K S y) : Restartable K S (if p then x else y) := by
  by_cases hp : p
  · rwa [if_pos hp]
  · rwa [if_neg hp]

/-- A first part that only looks. -/
theorem after_reads (hx : Reads x) (hf : ∀ a, Restartable K S (f a)) : Restartable K S (x >>= f) :=
  after_quiet hx.quiet hf

theorem fault (e : Exception) : Restartable K S (fault e : Exec α) := (Reads.fault e).restartable

theorem pure (a : α) : Restartable K S (Pure.pure a : Exec α) := (Reads.pure a).restartable

end Restartable

end Exec

end X86
