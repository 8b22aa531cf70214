/-
SigScan.Command.Arguments — the words of a command line.

A command has options and takes words. An option has a long name behind two hyphens, and
some have a letter behind one. A value follows its option as the next word, or behind an
equals sign, or, after a letter, at once; as a word of its own it does not begin with a
hyphen, unless it is no more than that. An option is given at most once. Behind two
hyphens alone all is words. A request for help ends the reading where it stands, and so
does the first mistake.
-/
import SigScan.Text.Decimal

namespace SigScan.Command

/-- An option of a command. -/
structure Switch where
  name : String
  letter : Option Char := none
  /-- The values it accepts; none if it has no value. -/
  accepts : Option (String → Bool) := none

/-- Why reading a command line ends before its end. -/
inductive Stop where
  | help
  | mistake
deriving DecidableEq, Repr

/-- What a command line gives. -/
structure Arguments where
  /-- The values of options by their long names; an empty one where there is no value. -/
  options : List (String × String) := []
  words : List String := []
deriving DecidableEq, Repr

namespace Arguments

/-- The value of an option. -/
def value? (a : Arguments) (name : String) : Option String :=
  a.options.lookup name

/-- Whether an option is given. -/
def has (a : Arguments) (name : String) : Bool :=
  (a.value? name).isSome

/-- A command line read up to some word. -/
structure Reading where
  given : Arguments := {}
  /-- An option whose value is still to come. -/
  awaiting : Option Switch := none
  /-- Two hyphens alone have been read. -/
  onlyWords : Bool := false

namespace Reading

/-- Gives an option its value. -/
def put (r : Reading) (s : Switch) (value : String) : Except Stop Reading :=
  if r.given.has s.name then .error .mistake
  else if (s.accepts.map fun accepts => accepts value).getD true then
    .ok { r with
      given := { r.given with options := r.given.options ++ [(s.name, value)] }
      awaiting := none }
  else .error .mistake

/-- Adds a word, unless there are enough. -/
def addWord (most : Nat) (r : Reading) (word : String) : Except Stop Reading :=
  if r.given.words.length < most then
    .ok { r with given := { r.given with words := r.given.words ++ [word] } }
  else .error .mistake

/-- An option by its long name, with what stands behind an equals sign. -/
def long (switches : List Switch) (r : Reading) (name : String) (attached : Option String) :
    Except Stop Reading :=
  if name = "help" then
    if attached.isSome then .error .mistake else .error .help
  else
    match switches.find? fun s => s.name == name with
    | none => .error .mistake
    | some s =>
      match s.accepts, attached with
      | none, none => r.put s ""
      | none, some _ => .error .mistake
      | some _, some value => r.put s value
      | some _, none => .ok { r with awaiting := some s }

/-- Options by their letters; what stands behind the letter of an option with a value is
that value. -/
def short (switches : List Switch) (r : Reading) : List Char → Except Stop Reading
  | [] => .ok r
  | c :: cs =>
    if c = 'h' then .error .help
    else
      match switches.find? fun s => s.letter == some c with
      | none => .error .mistake
      | some s =>
        match s.accepts, cs with
        | none, cs =>
          match r.put s "" with
          | .error stop => .error stop
          | .ok r => short switches r cs
        | some _, [] => .ok { r with awaiting := some s }
        | some _, '=' :: value => r.put s (String.ofList value)
        | some _, value => r.put s (String.ofList value)

/-- The name and the value of a long option, around its first equals sign. -/
def splitEquals (cs : List Char) : String × Option String :=
  match cs.dropWhile (· != '=') with
  | [] => (String.ofList cs, none)
  | _ :: value => (String.ofList (cs.takeWhile (· != '=')), some (String.ofList value))

/-- Reads one more word. An option must not begin where the value of another one is still
to come. -/
def step (switches : List Switch) (most : Nat) (r : Reading) (word : String) :
    Except Stop Reading :=
  if r.onlyWords then
    if r.awaiting.isSome then .error .mistake else r.addWord most word
  else
    match word.toList with
    | ['-', '-'] => .ok { r with onlyWords := true }
    | '-' :: '-' :: cs =>
      if r.awaiting.isSome then .error .mistake
      else
        let (name, attached) := splitEquals cs
        r.long switches name attached
    | '-' :: c :: cs =>
      if r.awaiting.isSome then .error .mistake else r.short switches (c :: cs)
    | _ =>
      match r.awaiting with
      | some s => r.put s word
      | none => r.addWord most word

/-- Reads all words. -/
def run (switches : List Switch) (most : Nat) : Reading → List String → Except Stop Arguments
  | r, [] => if r.awaiting.isSome then .error .mistake else .ok r.given
  | r, word :: words =>
    match r.step switches most word with
    | .error stop => .error stop
    | .ok r => run switches most r words

end Reading

/-- Reads the words behind the name of a command that takes at most `most` words. -/
def read (switches : List Switch) (most : Nat) (words : List String) : Except Stop Arguments :=
  Reading.run switches most {} words

end Arguments

/-! ## Values -/

/-- The digits of a number with what stands in front of them. -/
def signedDigits (s : String) : Option (Bool × Nat) :=
  let ofRun (negative : Bool) (cs : List Char) : Option (Bool × Nat) :=
    match Text.Decimal.run cs with
    | ([], _) => none
    | (ds, []) => some (negative, Text.Digits.value 10 ds)
    | _ => none
  match s.toList with
  | '+' :: cs => ofRun false cs
  | '-' :: cs => ofRun true cs
  | cs => ofRun false cs

/-- A number of 32 bits; zero may have a minus. -/
def number32 (s : String) : Option UInt32 :=
  match signedDigits s with
  | none => none
  | some (negative, n) =>
    if n < UInt32.size ∧ (negative = false ∨ n = 0) then some (UInt32.ofNat n) else none

/-- A number of bytes; it has no minus. -/
def byteCount (s : String) : Option Nat :=
  match signedDigits s with
  | some (false, n) => if n < UInt64.size then some n else none
  | _ => none

/-- Whether a text can be a path. -/
def isPath (s : String) : Bool :=
  !s.isEmpty

end SigScan.Command
