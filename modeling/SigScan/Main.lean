/-
SigScan.Main — the program.

All that happens here is reading the files that a request names, asking for the time and
for the environment, writing the cache, and printing. What is printed and written is
decided by `Command`.
-/
import SigScan.Command.Program
import Std.Time.DateTime.Timestamp

namespace SigScan.Main

open SigScan.Command

/-- What can be typed. -/
def usage : List String :=
  ["Resolve named addresses in a module by byte signature",
    "",
    "Usage: sigscan compile [--offset N] [--name NAME] PATTERN",
    "       sigscan scan --signatures FILE (--dump FILE --base ADDRESS | --pid N)",
    "                    [--cache FILE] [--config FILE] [--chunk-size N] [--executable-only]"]

/-- What went wrong with a file. -/
def faultOf : IO.Error → FileFault
  | .noFileOrDirectory .. => .notFound
  | e => .other (toString e)

/-- The contents of a file. -/
def contents (path : String) : IO (Except FileFault ByteArray) := do
  match ← (IO.FS.readBinFile path).toBaseIO with
  | .ok bytes => return .ok bytes
  | .error e => return .error (faultOf e)

/-- Writes the file of a cache. -/
def write (o : Outcome) : IO (Except FileFault Unit) := do
  match o.write with
  | none => return .ok ()
  | some (path, cache) =>
    match ← (IO.FS.writeFile path cache.toJson).toBaseIO with
    | .ok () => return .ok ()
    | .error e => return .error (faultOf e)

/-- The time. -/
def now : IO Instant := do
  let t ← Std.Time.Timestamp.now
  return .ofClock t.val.second.val t.val.nano.val.toNat

/-- Prints the outcome of a request. -/
def finish (outcome : Outcome) : IO UInt32 := do
  outcome.lines.forM fun line => IO.println line
  match (outcome.finish (← write outcome)).failure with
  | none => return 0
  | some failure =>
    IO.eprintln s!"Error: {failure.message}"
    unless failure.causes.isEmpty do
      IO.eprintln "\nCaused by:"
      failure.causes.forM fun cause => IO.eprintln s!"    {cause}"
    return 1

/-- Carries a request out. -/
def run (request : Request) : IO UInt32 := do
  let found ← request.files.mapM fun path => do return (path, ← contents path)
  let read (path : String) : Except FileFault ByteArray :=
    (found.lookup path).getD (.error .notFound)
  match request.attempt read (← now) with
  | .ok outcome => finish outcome
  | .error overrun =>
    IO.eprintln overrun.message
    return 101

/-- Mistakes in the command line end with two, failures with one, a scan that is stopped with a
hundred and one. -/
def start (words : List String) : IO UInt32 := do
  match parse (← IO.getEnv settingsVariable) words with
  | .ok request => run request
  | .error .help =>
    usage.forM fun line => IO.println line
    return 0
  | .error .mistake =>
    usage.forM fun line => IO.eprintln line
    return 2

end SigScan.Main

/-- The entry of the program. -/
def main (words : List String) : IO UInt32 :=
  SigScan.Main.start words
