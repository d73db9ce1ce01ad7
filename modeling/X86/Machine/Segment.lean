import X86.Machine.Basic

/-!
# Segment loads

In real mode a selector is the segment itself. In protected mode it names an entry of the global
table, which must be of the right kind and present; the entry is marked as accessed in memory.
-/

namespace X86

/-- Whether a descriptor may be loaded into a segment register. -/
def Descriptor.suits (d : Descriptor) : SegReg → Bool
  | .ss => d.isData && d.isWritable
  | .cs => d.isCode
  | _ => d.isData || (d.isCode && d.isReadable)

namespace Cpu

/-- The bits of a selector that an error code names. -/
def selectorIndex (selector : UInt16) : UInt16 := selector &&& 0xFFFC

/-- The descriptor that a selector other than a null one names, with the address of its entry, if it
may be loaded into the register. Only ring 0 selectors of the global table are accepted. -/
def lookupSegment (c : Cpu) (b : Bus) (s : SegReg) (selector : UInt16) :
    Except Exception (UInt32 × Descriptor) :=
  let index := selectorIndex selector
  if selector &&& 7 ≠ 0 then .error (.generalProtection index)
  else
    match c.gdtr.entryAddress? selector.toUInt32 with
    | none => .error (.generalProtection index)
    | some entry =>
      let d := Descriptor.ofBytes fun i => b.read8 (entry + UInt32.ofNat i)
      if !d.suits s then .error (.generalProtection index)
      else if !d.isPresent then
        .error (if s = .ss then .stackFault index else .notPresent index)
      else .ok (entry, d)

end Cpu

namespace Exec

/-- Loads the descriptor of a table entry, and marks the entry if it was never loaded before. -/
def loadEntry (s : SegReg) (selector : UInt16) (entry : UInt32) (d : Descriptor) : Exec Unit := do
  let marked := d.markAccessed
  unless d.isAccessed do
    modify fun m => { m with bus := m.bus.write8 (entry + 5) marked.access }
  log (.segmentLoaded s selector marked)
  modifyCpu (·.loadCache s selector marked)

/-- Loads a segment register. -/
def loadSegment (s : SegReg) (selector : UInt16) : Exec Unit := do
  let m ← get
  if !m.cpu.protectedMode then
    modifyCpu (·.loadRealSegment s selector)
  else if Cpu.selectorIndex selector = 0 then
    if s = .ss ∨ s = .cs then fault (.generalProtection 0)
    else modifyCpu (·.loadCache s selector {})
  else
    let (entry, d) ← check (m.cpu.lookupSegment m.bus s selector)
    loadEntry s selector entry d

/-- Continues at an offset of another code segment. -/
def jumpFar (selector : UInt16) (eip : UInt32) : Exec Unit := do
  loadSegment .cs selector
  modifyCpu (·.jump eip)

end Exec

end X86
