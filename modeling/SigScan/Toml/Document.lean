/-
SigScan.Toml.Document — documents line by line.

A line is empty or a comment, a header in brackets, or a key with its value. A header
opens a table, or a row of an array of tables, which the keys behind it fill until the
next header; the keys in front of the first header belong to the top level. A mark of
the byte order may stand at the start.
-/
import SigScan.Toml.Value

namespace SigScan.Toml

/-- Which table the keys of the current lines belong to. -/
inductive Section where
  | topLevel
  | table (path : List String × String)
  | row (path : List String × String)

/-- A document read up to some line: the top level without the table that is being
filled, and that table. -/
structure Draft where
  closed : Entries
  current : Entries
  place : Section

namespace Draft

/-- Nothing read yet. -/
def start : Draft := ⟨[], [], .topLevel⟩

/-- The top level with the table that was being filled in its place. -/
def close (d : Draft) : Option Entries :=
  match d.place with
  | .topLevel => some d.current
  | .table path => d.closed.closeTable path d.current
  | .row path => d.closed.addRow path d.current

/-- A header of a table. -/
def openTable (d : Draft) (path : List String × String) : Option Draft :=
  match d.close with
  | none => none
  | some top =>
    match top.openTable path with
    | none => none
    | some (table, top) => some ⟨top, table, .table path⟩

/-- A header of a row. -/
def openRow (d : Draft) (path : List String × String) : Option Draft :=
  match d.close with
  | none => none
  | some top => if top.canAddRow path then some ⟨top, [], .row path⟩ else none

/-- A key with its value. -/
def define (d : Draft) (path : List String × String) (v : Value) : Option Draft :=
  match d.current.define path v with
  | none => none
  | some current => some { d with current := current }

end Draft

/-- The header of a row behind its first bracket, or of a table, up to the end of its
line. -/
def header (d : Draft) : Reader Draft
  | '[' :: rest =>
    match path rest with
    | some (key, ']' :: ']' :: rest) =>
      match d.openRow key, finishLine rest with
      | some d, some rest => some (d, rest)
      | _, _ => none
    | _ => none
  | cs =>
    match path cs with
    | some (key, ']' :: rest) =>
      match d.openTable key, finishLine rest with
      | some d, some rest => some (d, rest)
      | _, _ => none
    | _ => none

/-- A key with its value up to the end of the line. -/
def keyLine (d : Draft) : Reader Draft := fun cs =>
  match path cs with
  | some (key, '=' :: rest) =>
    match value (skipBlanks rest) with
    | none => none
    | some (v, rest) =>
      match d.define key v, finishLine rest with
      | some d, some rest => some (d, rest)
      | _, _ => none
  | _ => none

/-- The lines of a document. Each takes a character or more, so `bound` need not be longer
than the text that is left. -/
def lines : List Char → Draft → List Char → Option Draft
  | [], d, cs => if (skipBlanks cs).isEmpty then some d else none
  | _ :: bound, d, cs =>
    match skipBlanks cs with
    | [] => some d
    | '[' :: rest =>
      match header d rest with
      | none => none
      | some (d, rest) => lines bound d rest
    | c :: rest =>
      if c = '#' ∨ c = '\n' ∨ c = '\x0d' then
        match finishLine (c :: rest) with
        | none => none
        | some rest => lines bound d rest
      else
        match keyLine d (c :: rest) with
        | none => none
        | some (d, rest) => lines bound d rest

/-- What is left behind a mark of the byte order. -/
def skipOrderMark : List Char → List Char
  | '\ufeff' :: rest => rest
  | cs => cs

/-- The top level of a document, or nothing if the text is none. -/
def parse (text : String) : Option Entries :=
  let cs := skipOrderMark text.toList
  match lines cs .start cs with
  | none => none
  | some d => d.close

end SigScan.Toml
