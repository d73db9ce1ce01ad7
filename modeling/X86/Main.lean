import X86.CommandLine

/-!
# The program

Reads the files that the command line names, runs the machine and prints how it ended.
-/

namespace X86.CommandLine

/-- The text of a file, if it can be read. -/
def readText? (path : String) : IO (Option String) := do
  try return some (← IO.FS.readFile path)
  catch _ => return none

/-- The bytes of a file, if it can be read. -/
def readBytes? (path : String) : IO (Option (List UInt8)) := do
  try return some (← IO.FS.readBinFile path).toList
  catch _ => return none

/-- The command line, split into options and the image. -/
structure Arguments where
  config : Option String := none
  entry : Option String := none
  count : Option String := none
  timeout : Option String := none
  trace : Option String := none
  image : Option String := none

/-- Sets the option with the given name; `none` if there is no such option. -/
def Arguments.set? (a : Arguments) (name value : String) : Option Arguments :=
  match name with
  | "--config" => some { a with config := some value }
  | "--entry" => some { a with entry := some value }
  | "--count" => some { a with count := some value }
  | "--timeout" => some { a with timeout := some value }
  | "--trace" => some { a with trace := some value }
  | _ => none

/-- Reads the arguments; `none` if they are not understood. The value of an option is the next
argument, or stands after an equals sign. -/
def Arguments.ofList? : List String → Arguments → Option Arguments
  | [], a => some a
  | s :: rest, a =>
    if s.startsWith "--" then
      match s.toList.dropWhile (· != '=') with
      | _ :: value =>
        let name := String.ofList (s.toList.takeWhile (· != '='))
        (a.set? name (attachedValue (String.ofList value))).bind (ofList? rest)
      | [] =>
        match rest with
        | value :: rest => (a.set? s value).bind (ofList? rest)
        | [] => none
    else if a.image.isNone then ofList? rest { a with image := some s }
    else none

/-- Runs the machine until the program ends or the deadline has passed. -/
partial def runUntil (deadline : Option Nat) (m : Machine) : IO Machine := do
  match Exec.runFor 0x10000 m with
  | .ok true m => return m
  | .ok false m =>
    if let some d := deadline then
      if d ≤ (← IO.monoMsNow) then return m
    runUntil deadline m
  | .error _ m => return m

/-- Executes a session. -/
def Session.run (s : Session) : IO Machine := do
  match s.count with
  | some n =>
    match Exec.steps n.toNat s.machine with
    | .ok _ m => return m
    | .error _ m => return m
  | none =>
    let now ← IO.monoMsNow
    runUntil (s.timeout.map fun t => now + t.toNat * 1000) s.machine

/-- Milliseconds as seconds with three places. -/
def secondsText (ms : Nat) : String :=
  let rest := toString (ms % 1000)
  toString (ms / 1000) ++ "." ++ String.ofList (List.replicate (3 - rest.length) '0') ++ rest

/-- Prints a refusal; the exit code says that the run failed. -/
def refuse (e : Refusal) : IO UInt32 := do
  IO.eprintln e.text
  return 1

/-- Serves a request with the given settings. -/
def serve (r : Request) (settings : Settings) : IO UInt32 := do
  match r.start settings with
  | .error e =>
    if !e.precedesTrace then
      if let some path := settings.trace then IO.FS.writeFile path ""
    refuse e
  | .ok s =>
    let begin ← IO.monoMsNow
    let m ← s.run
    if let (some path, some lines) := (settings.trace, m.trace) then
      IO.FS.writeFile path (String.join (lines.toList.map (· ++ "\n")))
    IO.println (executedLine m ++ " in " ++ secondsText ((← IO.monoMsNow) - begin) ++ "s")
    (summary m).forM IO.println
    return 0

/-- Serves the command line. -/
def run (a : Arguments) (image : String) : IO UInt32 := do
  let settings ← a.config.mapM readText?
  let r : Request :=
    { settings, trace := a.trace, entry := a.entry, image := ← readBytes? image,
      timeout := a.timeout, count := a.count }
  match r.openSettings with
  | .error e => refuse e
  | .ok s =>
    r.announcement.forM IO.println
    serve r s

end X86.CommandLine

/-- How the program is called. -/
def X86.CommandLine.usage : String :=
  "usage: [--config FILE] [--entry SEG:OFF] [--count N] [--timeout N] [--trace FILE] IMAGE"

/-- Runs the image that the command line names. -/
def main (args : List String) : IO UInt32 := do
  if let some a := X86.CommandLine.Arguments.ofList? args {} then
    if let some image := a.image then
      return ← X86.CommandLine.run a image
  IO.eprintln X86.CommandLine.usage
  return 1
