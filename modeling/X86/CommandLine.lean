import X86.Machine.Step
import X86.Machine.Load
import X86.Settings.Document
import X86.Text.FarPointer
import X86.Text.Lines

/-!
# The command line

A run loads an image into a fresh machine, executes it and prints the registers at the end. What the
user asked for is checked in a fixed order, and the first thing wrong ends the run.
-/

namespace X86.CommandLine

/-- What the user asked for, the files already read. -/
structure Request where
  /-- The text of the settings file, if one was named; `some none` if it cannot be read. -/
  settings : Option (Option String) := none
  /-- The file for the instruction trace. -/
  trace : Option String := none
  /-- Where the image is loaded and entered. -/
  entry : Option String := none
  /-- The image; `none` if it cannot be read. -/
  image : Option (List UInt8)
  /-- The number of seconds after which the run ends. -/
  timeout : Option String := none
  /-- The number of instructions after which the run ends. -/
  count : Option String := none

/-- Why a run does not start. -/
inductive Refusal where
  /-- The settings are no good. -/
  | settings (f : SettingsFault)
  /-- The entry point is no pair of segment and offset. -/
  | entry (s : String)
  /-- The image cannot be read. -/
  | unreadableImage
  /-- The file for the instruction trace cannot be opened. -/
  | traceFile
  /-- The image does not fit. -/
  | image (e : Machine.ImageTooLarge)
  /-- A number cannot be read. -/
  | number (e : NumberFault)
  /-- A number is cut off in the middle of a character. -/
  | brokenNumber
deriving DecidableEq

/-- The wording of a refusal. -/
def Refusal.text : Refusal → String
  | settings f => "error: " ++ f.text
  | entry s => "error: invalid entry point " ++ s
  | unreadableImage | traceFile => "error: io"
  | image e => "error: " ++ e.text
  | number f => "error: " ++ f.text
  | brokenNumber => "error: a number ends inside a character"

/-- Whether a run is refused before it opens, and so empties, the file for the trace. -/
def Refusal.precedesTrace : Refusal → Bool
  | settings _ | entry _ | unreadableImage | traceFile => true
  | image _ | number _ | brokenNumber => false

/-- The lines in the file for the trace after a refusal, given the text that it held before. -/
def Refusal.traceLines (e : Refusal) (before : String) : List String :=
  if e.precedesTrace then Text.lines before else []

/-- A machine that is ready to run. -/
structure Session where
  machine : Machine
  /-- The number of seconds after which to stop. -/
  timeout : Option UInt32
  /-- The number of instructions to execute; without it the program runs until it ends. -/
  count : Option UInt32

/-- Reads a number that may be missing. -/
def optionalNumber (s : Option String) : Except Refusal (Option UInt32) :=
  match s with
  | none => .ok none
  | some s =>
    match parseNumber s with
    | .ok n => .ok (some n)
    | .error (.fault f) => .error (.number f)
    | .error .splitCharacter => .error .brokenNumber

/-- The value of an option that stands after an equals sign: equals signs in front of it are no part
of it. -/
def attachedValue (s : String) : String :=
  String.ofList (s.toList.dropWhile (· == '='))

/-- Whether a file can have a name. -/
def isFileName (s : String) : Bool :=
  s != "" && !s.toList.contains '\x00'

namespace Request

/-- The settings of the run; a trace asked for on the command line wins. -/
def openSettings (r : Request) : Except Refusal Settings :=
  let s : Except SettingsFault Settings := match r.settings with
    | none => .ok {}
    | some none => .error .unreadable
    | some (some text) => Settings.parse text
  match s with
  | .ok s => .ok { s with trace := r.trace.or s.trace }
  | .error f => .error (.settings f)

/-- The lines printed before the run, once the settings are read. -/
def announcement (r : Request) : List String :=
  r.trace.toList.map ("Instruction trace will be written to " ++ ·)

/-- Where the image goes. -/
def openEntry (r : Request) : Except Refusal FarPointer :=
  match r.entry with
  | none => .ok Machine.programStart
  | some s =>
    match FarPointer.parse? s with
    | some p => .ok p
    | none => .error (.entry s)

/-- Makes the machine and loads the image. -/
def boot (r : Request) (s : Settings) : Except Refusal Machine := do
  let p ← r.openEntry
  match r.image with
  | none => .error .unreadableImage
  | some image =>
    if s.trace.any (!isFileName ·) then .error .traceFile
    else match (Machine.ofSettings s).installStub.loadImage image p with
    | .ok m => .ok (m.setUpSegments p.segment)
    | .error e => .error (.image e)

/-- Makes everything ready for the run. -/
def start (r : Request) (s : Settings) : Except Refusal Session := do
  let machine ← r.boot s
  let timeout ← optionalNumber r.timeout
  let count ← optionalNumber r.count
  .ok { machine, timeout, count }

end Request

/-- Registers with their names and at least eight digits. -/
def wideRegisters (g : Registers) (names : List (String × Gpr)) : String :=
  " ".intercalate (names.map fun (name, r) => name ++ ":" ++ Hex.upper 8 (g.dword r).toNat)

/-- The registers, as printed at the end of a run. -/
def registerLines (g : Registers) : List String :=
  [ wideRegisters g [("EAX", .ax), ("EBX", .bx), ("ECX", .cx), ("EDX", .dx)],
    wideRegisters g [("ESI", .si), ("EDI", .di), ("EBP", .bp), ("ESP", .sp)],
    " ".intercalate
      ([("CS", SegReg.cs), ("DS", .ds), ("ES", .es), ("FS", .fs), ("GS", .gs), ("SS", .ss)].map
          (fun (name, s) => name ++ ":" ++ Hex.upper 4 (g.selector s).toNat)
        ++ ["EIP:" ++ Hex.upper 8 g.eip.toNat]),
    "FLAGS:" ++ Hex.upper 8 g.flags.toUInt32.toNat ++ " " ++ g.flags.summary ]

/-- What is printed at the end of a run, after the number of instructions: whether the machine died,
and the registers. -/
def summary (m : Machine) : List String :=
  (if m.cpu.dead then ["machine stopped on a fatal error"] else []) ++ registerLines m.cpu.regs

/-- The line with the number of instructions. -/
def executedLine (m : Machine) : String :=
  "executed " ++ toString m.cpu.instructions ++ " instructions"

end X86.CommandLine
