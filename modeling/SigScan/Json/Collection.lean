/-
SigScan.Json.Collection — arrays, objects and records.

An array is a list of values of one type, an object a run of named members. A record is
an object whose members have names known in advance: each is read once, by the reader of
its field, into what is known of the record so far; members of other names are passed
over. A record may also be given as an array of its fields in their order, the last ones
left out; nothing may stand behind the last field then.

Fields are told apart by what a partial record knows, so a second member of the same name
is refused as soon as its name is read, whatever its value would be.
-/
import SigScan.Json.Skip

namespace SigScan.Json

variable {α σ : Type}

/-! ## Arrays -/

/-- What comes next in an array: an element, or nothing if it closes here. A comma stands
in front of every element but the first, and of nothing else. -/
def moreElements (first : Bool) : Reader Bool := fun cs =>
  match next cs with
  | .error fault => .error fault
  | .ok (c, rest) =>
    if c = ']' then .ok (false, rest)
    else if first then .ok (true, c :: rest)
    else if c = ',' then
      match next rest with
      | .error fault => .error fault
      | .ok (d, rest) => if d = ']' then .error .malformed else .ok (true, d :: rest)
    else .error .malformed

/-- The elements of an array up to its bracket, behind those of `done`, which are given
backwards. Each element takes a character or more, so `bound` need not be longer than the
text that is left. -/
def elements (read : Reader α) : List Char → Bool → List α → Reader (List α)
  | [], _, _, _ => .error .truncated
  | _ :: bound, first, done, cs =>
    match moreElements first cs with
    | .error fault => .error fault
    | .ok (false, rest) => .ok (done.reverse, rest)
    | .ok (true, rest) =>
      match read rest with
      | .error fault => .error fault
      | .ok (a, rest) => elements read bound false (a :: done) rest

/-- An array of values of one type. -/
def array (read : Reader α) : Reader (List α) := fun cs =>
  match next cs with
  | .error fault => .error fault
  | .ok (c, rest) =>
    if c = '[' then elements read rest true [] rest
    else .error (unexpected c rest)

/-! ## Objects -/

/-- What comes next in an object: the name of a member, or nothing if it closes here. -/
def moreMembers (first : Bool) : Reader (Option String) := fun cs =>
  let name (c : Char) (rest : List Char) : Except Fault (Option String × List Char) :=
    if c = '"' then
      match stringRest rest with
      | .error fault => .error fault
      | .ok (s, rest) => .ok (some s, rest)
    else .error .malformed
  match next cs with
  | .error fault => .error fault
  | .ok (c, rest) =>
    if c = '\x7d' then .ok (none, rest)
    else if first then name c rest
    else if c = ',' then
      match next rest with
      | .error fault => .error fault
      | .ok (d, rest) => name d rest
    else .error .malformed

/-- The colon behind the name of a member. -/
def colon : Reader Unit := fun cs =>
  match next cs with
  | .error fault => .error fault
  | .ok (c, rest) => if c = ':' then .ok ((), rest) else .error .malformed

/-- The members of an object up to its brace. What a member adds depends on its name,
which is judged before the colon is looked for. -/
def members (member : σ → String → Except Fault (Reader σ)) :
    List Char → Bool → σ → Reader σ
  | [], _, _, _ => .error .truncated
  | _ :: bound, first, s, cs =>
    match moreMembers first cs with
    | .error fault => .error fault
    | .ok (none, rest) => .ok (s, rest)
    | .ok (some name, rest) =>
      match member s name with
      | .error fault => .error fault
      | .ok read =>
        match colon rest with
        | .error fault => .error fault
        | .ok (_, rest) =>
          match read rest with
          | .error fault => .error fault
          | .ok (s, rest) => members member bound false s rest

/-- An object whose members all have values of one type, in the order of the text. -/
def object (read : Reader α) : Reader (List (String × α)) := fun cs =>
  match next cs with
  | .error fault => .error fault
  | .ok (c, rest) =>
    if c = '\x7b' then
      let member (found : List (String × α)) (name : String) :
          Except Fault (Reader (List (String × α))) :=
        .ok fun cs =>
          match read cs with
          | .error fault => .error fault
          | .ok (a, rest) => .ok ((name, a) :: found, rest)
      match members member rest true [] rest with
      | .error fault => .error fault
      | .ok (found, rest) => .ok (found.reverse, rest)
    else .error (unexpected c rest)

/-! ## Records -/

/-- A field of a record that is known in part. -/
structure Field (σ : Type) where
  name : String
  /-- Whether the field has been read. -/
  isKnown : σ → Bool
  /-- Reads the field into what is known. -/
  read : σ → Reader σ

/-- The field whose value is kept where `get` finds it and `set` puts it. -/
def Field.kept (name : String) (get : σ → Option α) (value : Reader α) (set : σ → α → σ) :
    Field σ where
  name := name
  isKnown s := (get s).isSome
  read s cs :=
    match value cs with
    | .error fault => .error fault
    | .ok (a, rest) => .ok (set s a, rest)

/-- What a member of a record adds: the value of its field, or nothing if there is no such
field. A field that is known already is refused. -/
def fieldMember (fields : List (Field σ)) (s : σ) (name : String) : Except Fault (Reader σ) :=
  match fields.find? fun f => f.name == name with
  | some f => if f.isKnown s then .error .mismatch else .ok (f.read s)
  | none => .ok fun cs =>
    match skip cs with
    | .error fault => .error fault
    | .ok (_, rest) => .ok (s, rest)

/-- The fields of a record in their order, up to the bracket. -/
def positions : List (Field σ) → Bool → σ → Reader σ
  | [], _, s, cs =>
    match next cs with
    | .error fault => .error fault
    | .ok (c, rest) => if c = ']' then .ok (s, rest) else .error .malformed
  | f :: fs, first, s, cs =>
    match moreElements first cs with
    | .error fault => .error fault
    | .ok (false, rest) => .ok (s, rest)
    | .ok (true, rest) =>
      match f.read s rest with
      | .error fault => .error fault
      | .ok (s, rest) => positions fs false s rest

/-- A record. `finish` tells whether enough is known at the end. -/
def record (fields : List (Field σ)) (start : σ) (finish : σ → Option α) : Reader α := fun cs =>
  match next cs with
  | .error fault => .error fault
  | .ok (c, rest) =>
    let known : Except Fault (σ × List Char) :=
      if c = '\x7b' then members (fieldMember fields) rest true start rest
      else if c = '[' then positions fields true start rest
      else .error (unexpected c rest)
    match known with
    | .error fault => .error fault
    | .ok (s, rest) =>
      match finish s with
      | none => .error .mismatch
      | some a => .ok (a, rest)

end SigScan.Json
