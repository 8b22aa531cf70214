/-
SigScan.Toml.Key — keys and paths of keys.

A key is a run of letters, digits, underscores and hyphens of ASCII, or a string on one
line. A path is one key or several with dots between them, and blanks around each.

Main statement: a bare key is the longest run of its characters (`bareKey_append`).
-/
import SigScan.Toml.Quoted

namespace SigScan.Toml

/-- Number of nested arrays, inline tables or keys of a path that is too many. -/
def nestingLimit : Nat := 80

/-- The characters of a bare key. -/
def isBare (c : Char) : Bool :=
  let n := c.toNat
  (decide (48 ≤ n) && decide (n ≤ 57)) || (decide (65 ≤ n) && decide (n ≤ 90))
    || (decide (97 ≤ n) && decide (n ≤ 122)) || c == '_' || c == '-'

/-- A key of bare characters, one or more. -/
def bareKey : Reader (List Char) := fun cs =>
  match cs.takeWhile isBare with
  | [] => none
  | key => some (key, cs.dropWhile isBare)

/-- A single key. -/
def simpleKey : Reader String := fun cs =>
  let found :=
    match cs with
    | '"' :: rest => basicRest rest [] rest
    | '\'' :: rest => literalRest rest
    | cs => bareKey cs
  found.map fun (key, rest) => (String.ofList key, rest)

/-- The keys of a path, the last one first, behind those of `done`. Each takes a character or
more, so `bound` need not be longer than the text that is left. -/
def pathKeys : List Char → List String → Reader (List String)
  | [], _, _ => none
  | _ :: bound, done, cs =>
    match simpleKey (skipBlanks cs) with
    | none => none
    | some (key, rest) =>
      match skipBlanks rest with
      | '.' :: rest => pathKeys bound (key :: done) rest
      | rest => some (key :: done, rest)

/-- A path, given as the keys in front of the last one and the last one. -/
def path : Reader (List String × String) := fun cs =>
  match pathKeys cs [] cs with
  | some (last :: keys, rest) =>
    if keys.length + 1 < nestingLimit then some ((keys.reverse, last), rest) else none
  | _ => none

/-- A run of bare characters that another one follows is the key. -/
theorem bareKey_append {key : List Char} (hne : key ≠ []) (h : ∀ c ∈ key, isBare c = true)
    {c : Char} (hc : isBare c = false) (rest : List Char) :
    bareKey (key ++ c :: rest) = some (key, c :: rest) := by
  have ht : (key ++ c :: rest).takeWhile isBare = key := by
    rw [List.takeWhile_append_of_pos h, List.takeWhile_cons, hc]
    simp
  have hd : (key ++ c :: rest).dropWhile isBare = c :: rest := by
    rw [List.dropWhile_append_of_pos h, List.dropWhile_cons, hc]
    simp
  unfold bareKey
  rw [ht, hd]
  cases key with
  | nil => exact absurd rfl hne
  | cons k ks => rfl

end SigScan.Toml
