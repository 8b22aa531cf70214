/-
SigScan.Scan.Config — scanner settings.

A module is read in chunks of a set size, and regions that cannot be executed may be
left out. Settings that an author gives are completed by defaults; a chunk size of zero
is raised to one byte.
-/
import SigScan.Memory.Region

namespace SigScan.Scan

/-- Bytes read per request unless set otherwise: four mebibytes. -/
def defaultChunkSize : Nat := 4194304

/-- How a module is scanned. -/
structure Config where
  /-- Bytes read per request. -/
  chunkSize : Nat := defaultChunkSize
  /-- Leaves out regions that cannot be executed. -/
  executableOnly : Bool := false
deriving DecidableEq, Repr, Inhabited

namespace Config

/-- Settings from what an author gives; a chunk holds at least one byte. -/
def ofAuthor (chunkSize : Option Nat) (executableOnly : Option Bool) : Config where
  chunkSize := (chunkSize.map (max 1)).getD defaultChunkSize
  executableOnly := executableOnly.getD false

/-- The chunk size that a scan works with. -/
def step (c : Config) : Nat :=
  max 1 c.chunkSize

/-- Whether a region is scanned: it holds bytes, may be read, and is code if only code is
asked for. -/
def admits (c : Config) (r : Region) : Bool :=
  decide (0 < r.len) && r.access.readable && (!c.executableOnly || r.access.executable)

theorem step_pos (c : Config) : 0 < c.step := by
  simp only [step]
  omega

end Config

end SigScan.Scan
