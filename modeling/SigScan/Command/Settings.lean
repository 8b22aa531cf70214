/-
SigScan.Command.Settings — scanner settings from a file and from flags.

A settings file is a TOML document with a chunk size and a choice of executable regions
at its top level; either may be left out, and other keys do not matter. A flag wins over
the file.
-/
import SigScan.Command.Failure
import SigScan.Scan.Config
import SigScan.Toml.Document

namespace SigScan.Command.Settings

/-- What a settings file gives. -/
structure Given where
  chunkSize : Option Nat
  executableOnly : Option Bool
deriving DecidableEq, Repr

/-- A natural number under a key, or nothing if the key is not there. A value of another
kind is refused. -/
def natural (top : Toml.Entries) (key : String) : Option (Option Nat) :=
  match top.lookup key with
  | none => some none
  | some (.value (.integer n)) => if 0 ≤ n then some (some n.toNat) else none
  | some _ => none

/-- A truth value under a key, or nothing if the key is not there. -/
def boolean (top : Toml.Entries) (key : String) : Option (Option Bool) :=
  match top.lookup key with
  | none => some none
  | some (.value (.boolean b)) => some (some b)
  | some _ => none

/-- Reads the text of a settings file. -/
def ofToml (text : String) : Option Given :=
  match Toml.parse text with
  | none => none
  | some top =>
    match natural top "chunk_size", boolean top "executable_only" with
    | some chunkSize, some executableOnly => some ⟨chunkSize, executableOnly⟩
    | _, _ => none

/-- Reads settings from what reading their file gave. -/
def load (path : String) (contents : Except FileFault ByteArray) : Except Failure Given :=
  match FileFault.decode contents with
  | .error fault => .error (.settingsUnread path fault)
  | .ok text =>
    match ofToml text with
    | none => .error (.settingsInvalid path)
    | some given => .ok given

/-- The settings that flags and a file give together. -/
def combine (given : Given) (chunkSize : Option Nat) (executableOnly : Bool) : Scan.Config :=
  .ofAuthor (chunkSize.or given.chunkSize)
    (some (executableOnly || given.executableOnly.getD false))

/-- The settings of a run, with the file at `path` if there is one. -/
def resolve (read : String → Except FileFault ByteArray) (path : Option String)
    (chunkSize : Option Nat) (executableOnly : Bool) : Except Failure Scan.Config :=
  match path with
  | none => .ok (combine ⟨none, none⟩ chunkSize executableOnly)
  | some path =>
    match load path (read path) with
    | .error failure => .error failure
    | .ok given => .ok (combine given chunkSize executableOnly)

end SigScan.Command.Settings
