/-
SigScan.Toml.Table — the tables of a document and how they come about.

A table is named by a header of its own, by the path of a header further down, or by the
dots of a key; which of these it was decides whether it may be added to. A header may
name a table again only if so far it was part of a path. A dotted key may add to tables
that dots have made, or that lie on its way without a header of their own, but it must
end in one that dots have made. An array of tables is gone into at its latest row.
-/

namespace SigScan.Toml

/-- Values. Of most kinds nothing but their being there matters. -/
inductive Value where
  | integer (n : Int)
  | boolean (b : Bool)
  | other
deriving DecidableEq, Repr

/-- How a table came about. -/
inductive Origin where
  /-- It has a header of its own, or is the top level. -/
  | header
  /-- It lies on the path of a header. -/
  | path
  /-- Dots in a key have made it. -/
  | dots
deriving DecidableEq, Repr

/-- What a key stands for. -/
inductive Node where
  | value (v : Value)
  | table (origin : Origin) (entries : List (String × Node))
  /-- The rows of an array of tables, the latest first. -/
  | rows (latest : List (String × Node)) (others : List (List (String × Node)))

/-- The keys of a table with what they stand for. -/
abbrev Entries := List (String × Node)

namespace Entries

/-- Sets what a key stands for. -/
def put (es : Entries) (key : String) (node : Node) : Entries :=
  match es with
  | [] => [(key, node)]
  | (k, n) :: rest => if k = key then (key, node) :: rest else (k, n) :: put rest key node

/-- Leaves out a key. -/
def drop (es : Entries) (key : String) : Entries :=
  es.filter fun e => e.1 != key

/-- Changes the table at the end of a path; tables that are not there yet are made. Where
`dotted` is set, the path is that of a dotted key. -/
def changeAt {α : Type} (dotted : Bool) (change : Origin → Entries → Option (α × Entries)) :
    List String → Origin → Entries → Option (α × Entries)
  | [], origin, es => change origin es
  | key :: keys, _, es =>
    match es.lookup key with
    | none =>
      let origin := if dotted then Origin.dots else Origin.path
      (changeAt dotted change keys origin []).map fun (a, sub) =>
        (a, es.put key (.table origin sub))
    | some (.value _) => none
    | some (.table origin sub) =>
      if dotted && origin == .header then none
      else
        (changeAt dotted change keys origin sub).map fun (a, sub) =>
          (a, es.put key (.table origin sub))
    | some (.rows latest others) =>
      (changeAt dotted change keys .header latest).map fun (a, latest) =>
        (a, es.put key (.rows latest others))

/-- Gives a value to the key at the end of a path. -/
def define (es : Entries) (path : List String × String) (v : Value) : Option Entries :=
  let set (origin : Origin) (es : Entries) : Option (Unit × Entries) :=
    if (origin == .dots) == path.1.isEmpty then none
    else if (es.lookup path.2).isSome then none
    else some ((), es ++ [(path.2, .value v)])
  (changeAt true set path.1 .header es).map Prod.snd

/-- Takes the table of a header out of the top level, so that it can be filled: a new one,
or one that was part of a path so far. -/
def openTable (es : Entries) (path : List String × String) : Option (Entries × Entries) :=
  changeAt false (fun _ es =>
    match es.lookup path.2 with
    | none => some ([], es)
    | some (.table .path sub) => some (sub, es.drop path.2)
    | some _ => none) path.1 .header es

/-- Puts a table with a header back into the top level. -/
def closeTable (es : Entries) (path : List String × String) (table : Entries) : Option Entries :=
  (changeAt false (fun _ es =>
    if (es.lookup path.2).isSome then none
    else some ((), es.put path.2 (.table .header table))) path.1 .header es).map Prod.snd

/-- Whether a header may begin a row of an array of tables. -/
def canAddRow (es : Entries) (path : List String × String) : Bool :=
  (changeAt false (fun _ es =>
    match es.lookup path.2 with
    | none => some ((), es)
    | some (.rows _ _) => some ((), es)
    | some _ => none) path.1 .header es).isSome

/-- Adds a row to an array of tables. -/
def addRow (es : Entries) (path : List String × String) (row : Entries) : Option Entries :=
  (changeAt false (fun _ es =>
    match es.lookup path.2 with
    | none => some ((), es.put path.2 (.rows row []))
    | some (.rows latest others) => some ((), es.put path.2 (.rows row (latest :: others)))
    | some _ => none) path.1 .header es).map Prod.snd

end Entries

end SigScan.Toml
