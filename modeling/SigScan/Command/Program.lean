/-
SigScan.Command.Program — the command line as a whole.

The first word names a command: compile, scan, or help. A scan needs a signature file and
either a dump with its base or a process; a dump and a process exclude each other. The
settings file may also be named by the environment. A base that is no address is found
out first, then a settings file that is of no use, and only then the command is run.
-/
import SigScan.Command.Arguments
import SigScan.Command.Compile
import SigScan.Command.Scan
import SigScan.Command.Settings

namespace SigScan.Command

/-- Where a scan finds the bytes of the module, the base as it was given. -/
inductive Target where
  | dump (path base : String)
  | process (pid : UInt32)
deriving DecidableEq, Repr

/-- What a command line asks for. -/
inductive Request where
  | compile (pattern : String) (offset : Option UInt32) (name : Option String)
  | scan (signatures : String) (target : Target) (cache settings : Option String)
    (chunkSize : Option Nat) (executableOnly : Bool)
deriving DecidableEq, Repr

/-- The variable of the environment that names the settings file. -/
def settingsVariable : String := "SIGADDR_CONFIG"

/-! ## Commands and their options -/

/-- The options of the compile command. -/
def compileSwitches : List Switch :=
  [⟨"offset", some 'o', some fun s => (number32 s).isSome⟩,
    ⟨"name", some 'n', some fun _ => true⟩]

/-- The options of the scan command. -/
def scanSwitches : List Switch :=
  [⟨"signatures", some 's', some isPath⟩,
    ⟨"dump", none, some isPath⟩,
    ⟨"base", none, some fun _ => true⟩,
    ⟨"pid", some 'p', some fun s => (number32 s).isSome⟩,
    ⟨"cache", none, some isPath⟩,
    ⟨"config", none, some isPath⟩,
    ⟨"chunk-size", none, some fun s => (byteCount s).isSome⟩,
    ⟨"executable-only", none, none⟩]

/-- A compile command. -/
def parseCompile (words : List String) : Except Stop Request :=
  match Arguments.read compileSwitches 1 words with
  | .error stop => .error stop
  | .ok a =>
    match a.words with
    | [pattern] => .ok (.compile pattern ((a.value? "offset").bind number32) (a.value? "name"))
    | _ => .error .mistake

/-- The target of a scan. A dump needs a base, and without a dump a process is needed. -/
def targetOf (a : Arguments) : Except Stop Target :=
  match a.value? "dump", a.value? "base", (a.value? "pid").bind number32 with
  | some path, some base, none => .ok (.dump path base)
  | none, _, some pid => .ok (.process pid)
  | _, _, _ => .error .mistake

/-- The settings file of a scan; one from the environment must be a path, too. -/
def settingsOf (a : Arguments) (environment : Option String) : Except Stop (Option String) :=
  match a.value? "config", environment with
  | some path, _ => .ok (some path)
  | none, some path => if isPath path then .ok (some path) else .error .mistake
  | none, none => .ok none

/-- A scan command. -/
def parseScan (environment : Option String) (words : List String) : Except Stop Request :=
  match Arguments.read scanSwitches 0 words with
  | .error stop => .error stop
  | .ok a =>
    match a.value? "signatures", targetOf a, settingsOf a environment with
    | some signatures, .ok target, .ok settings =>
      .ok (.scan signatures target (a.value? "cache") settings
        ((a.value? "chunk-size").bind byteCount) (a.has "executable-only"))
    | _, _, _ => .error .mistake

/-- The commands, and the one that explains them. -/
def commandNames : List String := ["compile", "scan", "help"]

/-- A request for help about commands: none at all, or one that there is. -/
def parseHelp : List String → Stop
  | [] => .help
  | [name] => if commandNames.contains name then .help else .mistake
  | _ => .mistake

/-- What stands in front of a command: a request for help or for the version. -/
def parseFront (word : String) : Stop :=
  match word.toList with
  | '-' :: '-' :: _ => if word = "--help" ∨ word = "--version" then .help else .mistake
  | '-' :: c :: _ => if c = 'h' ∨ c = 'V' then .help else .mistake
  | _ => .mistake

/-- Reads a command line. -/
def parse (environment : Option String) : List String → Except Stop Request
  | [] => .error .mistake
  | "compile" :: words => parseCompile words
  | "scan" :: words => parseScan environment words
  | "help" :: words => .error (parseHelp words)
  | word :: _ => .error (parseFront word)

/-! ## Running -/

namespace Request

/-- The files that a request may read. -/
def files : Request → List String
  | compile _ _ _ => []
  | scan signatures target cache settings _ _ =>
    let dump :=
      match target with
      | .dump path _ => [path]
      | .process _ => []
    signatures :: dump ++ cache.toList ++ settings.toList

/-- The origin of a scan: the base of a dump must be an address. -/
def originOf : Target → Except Failure Scan.Origin
  | .process pid => .ok (.process pid)
  | .dump path base =>
    match HexAddress.parse base with
    | .error fault => .error (.base base fault)
    | .ok address => .ok (.dump path address)

/-- What a scan is asked for, its base read and its settings looked up. -/
def scanOf (read : String → Except FileFault ByteArray) (signatures : String) (target : Target)
    (cache settings : Option String) (chunkSize : Option Nat) (executableOnly : Bool) :
    Except Failure Scan.Request :=
  match originOf target with
  | .error failure => .error failure
  | .ok origin =>
    match Settings.resolve read settings chunkSize executableOnly with
    | .error failure => .error failure
    | .ok config => .ok ⟨signatures, origin, cache, config⟩

/-- Carries a request out, unless its pass is stopped; `read` gives the contents of files, and
`now` is the time. -/
def attempt (read : String → Except FileFault ByteArray) (now : Instant) :
    Request → Except SigScan.Scan.Overrun Outcome
  | compile pattern offset name => .ok (Compile.run pattern offset name)
  | scan signatures target cache settings chunkSize executableOnly =>
    match scanOf read signatures target cache settings chunkSize executableOnly with
    | .error failure => .ok (.failed failure)
    | .ok r => Scan.attempt read now r

end Request

end SigScan.Command
