import X86.Machine.Basic

/-!
# Runs of a computation

A computation takes a machine and ends with another one, in an answer or in a stop. This file takes
runs of composed computations apart and names the ones that only look.

* `Exec.bind_eq_ok`, `Exec.bind_eq_error`: how a sequence answers, and how it stops.
* `Exec.Reads`: the computation leaves the machine alone, whatever it answers.
* `Exec.Atomic`: the computation leaves the machine alone where it stops.
-/

namespace X86.Exec

variable {α β : Type} {x : Exec α} {f : α → Exec β} {m m' : Machine} {s : Stop}

/-! ### Single steps -/

@[simp] theorem pure_apply (a : α) (m : Machine) : (pure a : Exec α) m = .ok a m := rfl

@[simp] theorem throw_apply (s : Stop) (m : Machine) : (throw s : Exec α) m = .error s m := rfl

@[simp] theorem fault_apply (e : Exception) (m : Machine) :
    (fault e : Exec α) m = .error (.fault e) m := rfl

@[simp] theorem get_apply (m : Machine) : (get : Exec Machine) m = .ok m m := rfl

@[simp] theorem modify_apply (g : Machine → Machine) (m : Machine) :
    (modify g : Exec Unit) m = .ok () (g m) := rfl

@[simp] theorem cpu_apply (m : Machine) : cpu m = .ok m.cpu m := rfl

@[simp] theorem regs_apply (m : Machine) : regs m = .ok m.cpu.regs m := rfl

@[simp] theorem flags_apply (m : Machine) : flags m = .ok m.cpu.regs.flags m := rfl

@[simp] theorem modifyCpu_apply (g : Cpu → Cpu) (m : Machine) :
    modifyCpu g m = .ok () (m.withCpu g) := rfl

@[simp] theorem log_apply (e : LogEntry) (m : Machine) : log e m = .ok () (m.record e) := rfl

theorem check_ok (a : α) : check (.ok a) = (pure a : Exec α) := rfl

theorem check_error (e : Exception) : check (.error e) = (fault e : Exec α) := rfl

theorem check_eq_ok {r : Except Exception α} {a : α} :
    check r m = .ok a m' ↔ r = .ok a ∧ m' = m := by
  cases r with
  | ok b => simp [check_ok, eq_comm]
  | error e => simp [check_error]

theorem readMem_apply (l : Location) (w : Width) (m : Machine) :
    readMem l w m = check (m.cpu.read m.bus l w) m := rfl

theorem readPlace_apply (p : Place) (w : Width) (m : Machine) :
    readPlace p w m = check (m.cpu.readPlace m.bus p w) m := rfl

theorem bind_apply (x : Exec α) (f : α → Exec β) (m : Machine) :
    (x >>= f) m =
      match x m with
      | .ok a m' => f a m'
      | .error s m' => .error s m' := by
  change EStateM.bind x f m = _
  rw [EStateM.bind]
  cases x m <;> rfl

/-! ### Sequences -/

theorem bind_of_ok {a : α} (h : x m = .ok a m') : (x >>= f) m = f a m' := by
  rw [bind_apply, h]

theorem bind_of_error (h : x m = .error s m') : (x >>= f) m = .error s m' := by
  rw [bind_apply, h]

/-- A sequence answers if both parts do. -/
theorem bind_eq_ok {b : β} :
    (x >>= f) m = .ok b m' ↔ ∃ a m₁, x m = .ok a m₁ ∧ f a m₁ = .ok b m' := by
  constructor
  · intro h
    cases hx : x m with
    | ok a m₁ => exact ⟨a, m₁, rfl, (bind_of_ok hx).symm.trans h⟩
    | error s m₁ => cases (bind_of_error hx).symm.trans h
  · rintro ⟨a, m₁, hx, hf⟩
    rw [bind_of_ok hx, hf]

/-- A sequence stops where its first part does, or where its second part does after the first one
has answered. -/
theorem bind_eq_error :
    (x >>= f) m = .error s m' ↔
      x m = .error s m' ∨ ∃ a m₁, x m = .ok a m₁ ∧ f a m₁ = .error s m' := by
  constructor
  · intro h
    cases hx : x m with
    | ok a m₁ => exact .inr ⟨a, m₁, rfl, (bind_of_ok hx).symm.trans h⟩
    | error s₁ m₁ =>
      cases (bind_of_error hx).symm.trans h
      exact .inl rfl
  · rintro (hx | ⟨a, m₁, hx, hf⟩)
    · exact bind_of_error hx
    · rw [bind_of_ok hx, hf]

/-! ### Attempts -/

theorem attempt_eq_none {x : Exec Unit} : attempt x m = .ok none m' ↔ x m = .ok () m' := by
  rw [attempt]
  cases x m with
  | ok _ m₁ => simp
  | error s m₁ => cases s <;> simp

theorem attempt_eq_some {x : Exec Unit} {e : Exception} :
    attempt x m = .ok (some e) m' ↔ x m = .error (.fault e) m' := by
  rw [attempt]
  cases x m with
  | ok _ m₁ => simp
  | error s m₁ => cases s <;> simp

/-- An attempt catches what it raises. -/
theorem attempt_ne_fault (x : Exec Unit) (m : Machine) (e : Exception) (m' : Machine) :
    attempt x m ≠ .error (.fault e) m' := by
  rw [attempt]
  cases x m with
  | ok _ m₁ => exact nofun
  | error s m₁ => cases s <;> exact nofun

/-! ### The machine at the end -/

/-- The machine at the end of a run, however the run ended. -/
def after (x : Exec α) (m : Machine) : Machine :=
  match x m with
  | .ok _ m' => m'
  | .error _ m' => m'

theorem after_of_ok {a : α} (h : x m = .ok a m') : after x m = m' := by
  rw [after, h]

theorem after_of_error (h : x m = .error s m') : after x m = m' := by
  rw [after, h]

theorem after_bind_of_ok {a : α} (h : x m = .ok a m') : after (x >>= f) m = after (f a) m' := by
  rw [after, bind_of_ok h, after]

theorem after_bind_of_error (h : x m = .error s m') : after (x >>= f) m = m' :=
  after_of_error (bind_of_error h)

theorem after_attempt (x : Exec Unit) (m : Machine) : after (attempt x) m = after x m := by
  rw [after, attempt, after]
  cases x m with
  | ok _ m₁ => rfl
  | error s m₁ => cases s <;> rfl

/-- The answer of a run and the machine at its end, if it comes to an answer. -/
def ending? (x : Exec α) (m : Machine) : Option (α × Machine) :=
  match x m with
  | .ok a m' => some (a, m')
  | .error _ _ => none

/-- A run that answers ends where `after` says. -/
theorem ok_after {x : Exec Unit} (h : (ending? x m).isSome = true) :
    x m = .ok () (after x m) := by
  rw [ending?] at h
  rw [after]
  cases hx : x m with
  | ok a m' => rfl
  | error s m' =>
    rw [hx] at h
    cases h

theorem ending?_eq_some {a : α} : ending? x m = some (a, m') ↔ x m = .ok a m' := by
  rw [ending?]
  cases x m <;> simp

/-! ### Computations that only look -/

/-- The computation leaves the machine alone, whatever it answers. -/
def Reads (x : Exec α) : Prop := ∀ m, after x m = m

namespace Reads

theorem eq_of_ok (hx : Reads x) {a : α} (h : x m = .ok a m') : m' = m :=
  (after_of_ok h).symm.trans (hx m)

theorem eq_of_error (hx : Reads x) (h : x m = .error s m') : m' = m :=
  (after_of_error h).symm.trans (hx m)

theorem pure (a : α) : Reads (Pure.pure a) := fun _ => rfl

theorem fault (e : Exception) : Reads (fault e : Exec α) := fun _ => rfl

theorem get : Reads get := fun _ => rfl

theorem cpu : Reads cpu := fun _ => rfl

theorem regs : Reads regs := fun _ => rfl

theorem flags : Reads flags := fun _ => rfl

theorem check (r : Except Exception α) : Reads (check r) := by
  cases r with
  | ok a => exact pure a
  | error e => exact fault e

theorem bind (hx : Reads x) (hf : ∀ a, Reads (f a)) : Reads (x >>= f) := by
  intro m
  cases h : x m with
  | ok a m₁ => rw [after_bind_of_ok h, hx.eq_of_ok h, hf a m]
  | error s m₁ => rw [after_bind_of_error h, hx.eq_of_error h]

theorem readMem (l : Location) (w : Width) : Reads (readMem l w) := by
  intro m
  rw [after, readMem_apply]
  exact check (m.cpu.read m.bus l w) m

theorem readPlace (p : Place) (w : Width) : Reads (readPlace p w) := by
  intro m
  rw [after, readPlace_apply]
  exact check (m.cpu.readPlace m.bus p w) m

end Reads

/-! ### Computations that change nothing before they stop -/

/-- A computation that stops has done nothing. -/
def Atomic {α : Type} (x : Exec α) : Prop := ∀ m s m', x m = .error s m' → m' = m

namespace Atomic

variable {α β : Type} {x : Exec α} {f : α → Exec β}

theorem modify (g : Machine → Machine) : Atomic (modify g : Exec Unit) :=
  fun _ _ _ h => by cases h

theorem after_reads (hx : Reads x) (hf : ∀ a, Atomic (f a)) : Atomic (x >>= f) := by
  intro m s m' h
  rcases bind_eq_error.1 h with hFirst | ⟨a, m₁, hFirst, hSecond⟩
  · exact hx.eq_of_error hFirst
  · rw [hf a m₁ s m' hSecond, hx.eq_of_ok hFirst]

theorem before_modifyCpu (hx : Atomic x) (g : α → Cpu → Cpu) :
    Atomic (x >>= fun a => modifyCpu (g a)) := by
  intro m s m' h
  rcases bind_eq_error.1 h with hFirst | ⟨a, m₁, hFirst, hSecond⟩
  · exact hx m s m' hFirst
  · cases hSecond

end Atomic

end X86.Exec
