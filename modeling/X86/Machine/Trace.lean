import X86.Machine.Basic

/-!
# The instruction trace

One line for each executed instruction, with the registers before it.
-/

namespace X86

/-- The registers that a trace line shows in full, in its order. -/
def tracedGprs : List (String × Gpr) :=
  [ ("EAX", .ax), ("EBX", .bx), ("ECX", .cx), ("EDX", .dx), ("ESI", .si), ("EDI", .di),
    ("EBP", .bp), ("ESP", .sp) ]

/-- The segment registers that a trace line shows, in its order. -/
def tracedSegments : List (String × SegReg) :=
  [("DS", .ds), ("ES", .es), ("FS", .fs), ("GS", .gs), ("SS", .ss)]

/-- The flags that a trace line shows, in its order. -/
def tracedFlags (f : Flags) : List (String × Bool) :=
  [("C", f.carry), ("Z", f.zero), ("S", f.sign), ("O", f.overflow), ("I", f.interrupt)]

/-- A trace line. -/
def traceLine (g : Registers) (i : Instruction) : String :=
  Hex.upper 4 (g.selector .cs).toNat ++ ":" ++ Hex.upper 8 g.eip.toNat ++ "  "
    ++ Text.padRight i.text 30 ++ " "
    ++ " ".intercalate
      (tracedGprs.map (fun (name, r) => name ++ ":" ++ Hex.upper 8 (g.dword r).toNat)
        ++ tracedSegments.map (fun (name, s) => name ++ ":" ++ Hex.upper 4 (g.selector s).toNat)
        ++ (tracedFlags g.flags).map (fun (name, b) => name ++ if b then "1" else "0"))

/-- Adds a line to the trace, while tracing. -/
def Machine.traceInstruction (m : Machine) (i : Instruction) : Machine :=
  { m with trace := m.trace.map (·.push (traceLine m.cpu.regs i)) }

end X86
