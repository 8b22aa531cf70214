/-
SigScan.Command.Failure — what ends a command, and its messages.

A failure of a command says what was being done and, where there is one, keeps the cause.
The messages are listed outermost first; the first one alone is what a command prints.
-/
import SigScan.Command.HexAddress
import SigScan.Error

namespace SigScan.Command

/-- Why a command did not succeed. -/
inductive Failure where
  /-- The pattern of the compile command, under its name or its own text. -/
  | compile (shown : String) (cause : Pattern.Malformed)
  /-- A base that is no address. -/
  | base (text : String) (fault : Text.Hex.Fault)
  /-- A settings file that cannot be read. -/
  | settingsUnread (path : String) (fault : FileFault)
  /-- A settings file that says nothing a scanner can use. -/
  | settingsInvalid (path : String)
  /-- A signature file that cannot be read. -/
  | signatures (path : String) (cause : Error)
  /-- Signatures that cannot be registered together. -/
  | set (cause : Error)
  /-- A dump that cannot be read. -/
  | dump (path : String) (fault : FileFault)
  /-- A process, which cannot be attached to here. -/
  | process (pid : UInt32)
  /-- A cache file that cannot be written. -/
  | cache (path : String) (fault : FileFault)
  /-- Signatures without an address. -/
  | incomplete (failed total : Nat)
deriving DecidableEq, Repr

namespace Failure

/-- The message of the failure itself. -/
def message : Failure → String
  | compile shown _ => s!"Failed to compile {shown}"
  | base text fault => HexAddress.message text fault
  | settingsUnread path _ => s!"Failed to read config file {path}"
  | settingsInvalid path => s!"Failed to parse config file {path}"
  | signatures path _ => s!"Failed to load signatures from {path}"
  | set _ => "Invalid signature set"
  | dump path _ => s!"Failed to read dump {path}"
  | process pid =>
    s!"Attaching to a process (PID {pid.toNat}) is only supported on Windows; use --dump instead"
  | cache path _ => s!"Failed to write address cache {path}"
  | incomplete failed total => s!"{failed} of {total} signatures could not be resolved"

/-- The messages of its causes, the nearest first. What is wrong with a settings file is
not put into words. -/
def causes : Failure → List String
  | compile _ cause => [cause.message]
  | base _ _ => []
  | settingsUnread _ fault => [fault.message]
  | settingsInvalid _ => ["TOML error"]
  | signatures _ cause => cause.chain
  | set cause => cause.chain
  | dump _ fault => (Error.file fault).chain
  | process _ => []
  | cache _ fault => (Error.file fault).chain
  | incomplete _ _ => []

/-- All messages, outermost first. -/
def messages (f : Failure) : List String :=
  f.message :: f.causes

end Failure

end SigScan.Command
