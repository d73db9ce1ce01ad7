import X86.Machine.Basic
import X86.Settings

/-!
# Building and loading

Makes a machine from settings and puts programs into its memory.
-/

namespace X86

namespace Machine

/-- A machine after a reset. A period of zero counts as one. -/
def ofSettings (s : Settings) : Machine :=
  let period := max s.period 1
  { cpu := .reset s.model
    bus := { Bus.ofSize (s.memoryKb * 1024) with a20 := s.a20 }
    period
    countdown := period
    masterBase := s.masterBase
    slaveBase := s.slaveBase
    trace := s.trace.map fun _ => #[] }

/-- An image that does not fit into the memory behind its address. -/
structure ImageTooLarge where
  size : Nat
  address : UInt32
deriving DecidableEq, Repr

/-- The wording of the refusal. -/
def ImageTooLarge.text (e : ImageTooLarge) : String :=
  "image of " ++ toString e.size ++ " bytes does not fit in memory at "
    ++ Hex.upper 6 e.address.toNat

/-- The address of an image, if it fits. -/
def imageAddress? (m : Machine) (size : Nat) (p : FarPointer) : Except ImageTooLarge UInt32 :=
  if p.linear.toNat + size > m.bus.ram.size then .error { size, address := p.linear }
  else .ok p.linear

/-- Stores an image and points the processor at its start. -/
def placeImage (m : Machine) (image : List UInt8) (p : FarPointer) : Machine :=
  { m with
    bus := m.bus.writeBytes p.linear image
    cpu := (m.cpu.loadRealSegment .cs p.segment).setEip p.offset.toUInt32 }

/-- Loads an image that starts at `p`. -/
def loadImage (m : Machine) (image : List UInt8) (p : FarPointer) :
    Except ImageTooLarge Machine :=
  match m.imageAddress? image.length p with
  | .error e => .error e
  | .ok _ => .ok (m.placeImage image p)

/-- Points the data, extra and stack segments at `segment`, with an empty stack at its end. -/
def setUpSegments (m : Machine) (segment : UInt16) : Machine :=
  m.withCpu fun c =>
    let data := (c.loadRealSegment .ds segment).loadRealSegment .es segment
    (data.loadRealSegment .ss segment).writeRegister (.word .sp) 0xFFFE

/-- Where programs of one segment are loaded: behind a header of 256 bytes. -/
def programStart : FarPointer := { segment := 0x085F, offset := 0x0100 }

/-- Loads a program of one segment. -/
def loadCom (m : Machine) (image : List UInt8) : Except ImageTooLarge Machine :=
  match m.loadImage image programStart with
  | .error e => .error e
  | .ok m => .ok (m.setUpSegments programStart.segment)

/-- Where the handler for unused vectors lies. -/
def stubAddress : FarPointer := { segment := 0xF000, offset := 0xFF53 }

/-- The opcode of IRET. -/
def stubOpcode : UInt8 := 0xCF

/-- Points all vectors at a lone IRET. -/
def installStub (m : Machine) : Machine :=
  { m with
    bus :=
      (List.range 256).foldl (fun b v => b.writeVector 0 (UInt8.ofNat v) stubAddress)
        (m.bus.write8 stubAddress.linear stubOpcode) }

end Machine

end X86
