import X86.Execute.Control
import X86.Execute.Strings
import X86.Execute.System

/-!
# Dispatch

`perform` is the meaning of a decoded instruction, once the instruction pointer has been moved past
it.
-/

namespace X86.Exec

/-- Bytes that are no instruction. The message names the place where they start. -/
def refuse (bytes : List UInt8) (reason : Refusal) (i : Instruction) : Exec Unit := do
  let g ← regs
  let start : CodePlace :=
    { cs := g.selector .cs, eip := g.eip - UInt32.ofNat i.length }
  log (.invalidOpcode start bytes reason)
  fault .invalidOpcode

/-- One element of an instruction; the whole of it unless it repeats. -/
def once (i : Instruction) : Exec Unit :=
  match i.operation with
  | .binary op => binary op i
  | .unary op => unary op i
  | .shift op => shift op i
  | .shiftLeftDouble => doubleShift Alu.shldAmounts Alu.shld i
  | .shiftRightDouble => doubleShift Alu.shrdAmounts Alu.shrd i
  | .multiply signed => multiply signed i
  | .multiplyCut => multiplyCut i
  | .divide signed => divide signed i
  | .decimal op => decimal op
  | .aam => aam i
  | .aad => aad i
  | .test => test i
  | .bitTest op => bitTest op i
  | .bitScan op => bitScan op i
  | .extendAccumulator => extendAccumulator i
  | .extendData => extendData i
  | .mov => mov i
  | .movExtend signed => movExtend signed i
  | .xchg => xchg i
  | .lea => lea i
  | .loadFar s => loadFar s i
  | .xlat => xlat i
  | .push => pushOperand i
  | .pop => popOperand i
  | .pusha => pusha i
  | .popa => popa i
  | .pushf => pushf i
  | .popf => popf i
  | .lahf => lahf
  | .sahf => sahf
  | .flag op => flag op
  | .input => inputPort i
  | .output => outputPort i
  | .setcc c => setcc c i
  | .salc => salc
  | .string op => stringElement op i
  | .jumpNear => jumpNear i
  | .jumpFar => jumpFarOperand i
  | .jcc c => jcc c i
  | .loop op => loop op i
  | .callNear => callNear i
  | .callFar => callFar i
  | .returnNear => returnNear i
  | .returnFar => returnFar i
  | .enter => enter i
  | .leave => leave i
  | .bound => bound i
  | .int => int i
  | .int3 => fault .breakpoint
  | .into => do if (← flags).overflow then fault .overflow
  | .iret => iret i.size
  | .hlt => hlt
  | .nop | .wait => pure ()
  | .escape => fault .deviceNotAvailable
  | .arpl => arpl i
  | .clts => clts
  | .lmsw => lmsw i
  | .smsw => smsw i
  | .loadTable t => loadTable t i
  | .storeTable t => storeTable t i
  | .loadSelector s => loadSelector s i
  | .storeSelector s => storeSelector s i
  | .invalid bytes reason => refuse bytes reason i

/-- Performs an instruction, as often as it repeats. -/
def perform (i : Instruction) : Exec Unit :=
  match i.rep with
  | none => once i
  | some mode => repeated mode (once i) i

end X86.Exec
