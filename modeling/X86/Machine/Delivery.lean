import X86.Machine.Interrupt

/-!
# Delivery of exceptions

An exception enters its handler. If that fails, the instruction is taken back and a double fault is
delivered in its place; if that fails too, the machine is dead. The exceptions that an instruction
asks for are gated like software interrupts: what their gate raises replaces them.
-/

namespace X86.Exec

/-- Takes an instruction back. -/
def restore (s : Snapshot) : Exec Unit := modifyCpu (·.restore s)

/-- Gives up: nothing can be delivered any more. -/
def shutDown (third : Exception) : Exec Unit := do
  log (.shutdown (← get).place third)
  modifyCpu fun c => { c with dead := true }

/-- Delivers a double fault in place of an exception that could not be delivered. -/
def escalate (e second : Exception) (s : Snapshot) : Exec Unit := do
  if e = .doubleFault then shutDown second
  else
    log (.escalated second e)
    restore s
    let double := Exception.doubleFault
    match ← attempt (interrupt double.vector double.errorCode false) with
    | none => pure ()
    | some third => shutDown third

/-- Tries to enter the handler of an exception. -/
def enterHandler (e : Exception) (software : Bool) (s : Snapshot) : Exec (Option Exception) := do
  log (.raised e { cs := s.cs, eip := s.eip })
  attempt (interrupt e.vector e.errorCode software)

/-- Delivers an exception; `true` if its own handler was entered. -/
def deliverFault (e : Exception) (s : Snapshot) : Exec Bool := do
  match ← enterHandler e false s with
  | none => return true
  | some second =>
    escalate e second s
    return false

/-- Delivers an exception that an instruction may have asked for; `true` if its own handler was
entered. -/
def deliver (e : Exception) (s : Snapshot) : Exec Bool := do
  if e.isSoftware then
    match ← enterHandler e true s with
    | none => return true
    | some second =>
      log (.refused second e)
      restore s
      let _ ← deliverFault second s
      return false
  else deliverFault e s

end X86.Exec
