/-
SigScan.FileFault — why a file could not be used.

Files are handed to the library as what reading them gave: their bytes or a fault. Text
files hold UTF-8.

Main statement: the bytes of a text are decoded to it (`decode_toUTF8`).
-/

namespace SigScan

/-- Why a file could not be read or written. -/
inductive FileFault where
  /-- There is no such file or directory. -/
  | notFound
  /-- The bytes are not UTF-8. -/
  | notText
  /-- What the operating system says otherwise. -/
  | other (text : String)
deriving DecidableEq, Repr

namespace FileFault

/-- The fault as messages give it. -/
def message : FileFault → String
  | notFound => "No such file or directory (os error 2)"
  | notText => "stream did not contain valid UTF-8"
  | other text => text

/-- The text of a file that holds UTF-8. -/
def decode (contents : Except FileFault ByteArray) : Except FileFault String :=
  match contents with
  | .error fault => .error fault
  | .ok bytes =>
    match String.fromUTF8? bytes with
    | some text => .ok text
    | none => .error .notText

theorem decode_toUTF8 (text : String) : decode (.ok text.toUTF8) = .ok text := by
  have hvalid : text.toUTF8.IsValidUTF8 := text.isValidUTF8
  have hdecode : String.fromUTF8? text.toUTF8 = some text := dif_pos hvalid
  rw [decode, hdecode]

end FileFault

end SigScan
