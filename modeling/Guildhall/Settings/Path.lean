-- SUMMARY: Paths into trees of settings, how they are spelled, and putting a value in the place of a path.
import Guildhall.Settings.Value

/-!
# Paths

A path is a name, followed by names behind a point and positions in brackets, as in
`server.port` or `server[1]`. Putting a value in the place of a path makes the tables and lists
on the way: what is of the wrong kind there is replaced. A name that does not spell a path is
the name of a value at the top.
-/

namespace Guildhall.Settings

inductive Step where
  | name (text : String)
  /-- A position in a list, from the end if it is negative. -/
  | position (index : Int)
  deriving DecidableEq, Repr

abbrev Path := List Step

namespace Path

/-! ## Spelling -/

/-- The characters of a name. -/
def isNameChar (c : Char) : Bool := c.isAlphanum || c == '_' || c == '-' || c == ' '

/-- A name at the front of a text, and what follows. -/
def splitName? (cs : List Char) : Option (String × List Char) :=
  let name := cs.takeWhile isNameChar
  if name = [] then none else some (String.ofList name, cs.dropWhile isNameChar)

/-- The space that may stand around a position: blanks, tabs and line ends. -/
def isSpace (c : Char) : Bool := c == ' ' || c == '\t' || c == '\r' || c == '\n'

/-- A position and the bracket behind it at the front of a text, and what follows. -/
def splitPosition? (cs : List Char) : Option (Int × List Char) := do
  let cs := cs.dropWhile isSpace
  let (negative, cs) : Bool × List Char :=
    match cs with
    | '-' :: rest => (true, rest)
    | _ => (false, cs)
  let n ← digitsValue? (cs.takeWhile Char.isDigit)
  let index : Int := if negative then -n else n
  if index < Int64.minValue.toInt ∨ Int64.maxValue.toInt < index then none
  match (cs.dropWhile Char.isDigit).dropWhile isSpace with
  | ']' :: rest => some (index, rest)
  | _ => none

/-- Reads the steps after the first name. Each step takes at least one character. -/
def steps? : Nat → List Char → Option Path
  | _, [] => some []
  | 0, _ => none
  | fuel + 1, '.' :: cs => do
    let (name, rest) ← splitName? cs
    return .name name :: (← steps? fuel rest)
  | fuel + 1, '[' :: cs => do
    let (index, rest) ← splitPosition? cs
    return .position index :: (← steps? fuel rest)
  | _, _ => none

/-- The path that a text spells. -/
def ofText? (s : String) : Option Path := do
  let (name, rest) ← splitName? s.toList
  return .name name :: (← steps? rest.length rest)

/-- The path that a text spells; a text that spells none is a name. -/
def ofText (s : String) : Path := (ofText? s).getD [.name s]

end Path

/-! ## Placing -/

/-- The place that a position selects in a list of some length. -/
def listIndex (index : Int) (length : Nat) : Nat :=
  if 0 ≤ index then index.toNat else (length + index).toNat

/-- A list with one item replaced; gaps fill it up to there. -/
def setPadded (items : List Value) (n : Nat) (value : Value) : List Value :=
  (items ++ List.replicate (n + 1 - items.length) Value.gap).set n value

/-- What stands in some place after a value has been put at the end of a path from there. Named
places are merged, positions in a list are overwritten. -/
def place (value : Value) : Path → Option Value → Value
  | [], old => value.merge old
  | .name n :: rest, old =>
    let old : Value := old.getD .gap
    old.put n (place value rest (old.entries.get? n))
  | .position i :: rest, old =>
    let items := (old.getD Value.gap).items
    let n := listIndex i items.length
    .list (setPadded items n (place value rest (if rest = [] then none else items[n]?)))

/-- Merges named values into a tree; the names are paths. -/
def assign (named : List (String × Value)) (root : Value) : Value :=
  named.foldl (fun root (name, value) => place value (Path.ofText name) (some root)) root

end Guildhall.Settings
