-- SUMMARY: Reading TOML text: values, lines, and whole documents with the place where a text goes wrong.
import Guildhall.Settings.Toml.Lexeme
import Guildhall.Settings.Toml.Tree

/-!
# TOML text

A document is read line by line into a `Document`; `Toml.read` returns the values that it gives,
or the line and the column where the text goes wrong. Dates and times are read as text.
-/

namespace Guildhall.Settings.Toml

/-! ## Values -/

def scalar (s : Scalar) : Value := .scalar s (some .file)

/-- A word at the front of a text. -/
def readWord (word : List Char) (s : Scalar) (cs : List Char) : Except Stuck (Piece Value) :=
  if word.isPrefixOf cs then .ok (scalar s, cs.drop word.length) else .error cs

/-- A value without parts. -/
def readScalar (cs : List Char) : Except Stuck (Piece Value) :=
  match readString? cs with
  | some reading => reading.map fun (text, rest) => (scalar (.text (String.ofList text)), rest)
  | none =>
    match readMoment? cs with
    | some reading => reading.map fun (text, rest) => (scalar (.text (String.ofList text)), rest)
    | none =>
      match cs with
      | 't' :: _ => readWord "true".toList (.flag true) cs
      | 'f' :: _ => readWord "false".toList (.flag false) cs
      | _ => (readNumber cs).map fun (s, rest) => (scalar s, rest)

/-- The items of a list, up to its closing bracket. The bound is the length of the text. -/
def readItems (readItem : List Char → Except Stuck (Piece Value)) :
    Nat → List Char → Except Stuck (Piece (List Value))
  | 0, cs => .error cs
  | fuel + 1, cs => do
    let cs := skipLines cs.length cs
    match cs with
    | ']' :: rest => return ([], rest)
    | _ =>
      let (item, rest) ← readItem cs
      let rest := skipLines rest.length rest
      match rest with
      | ',' :: rest =>
        let (items, rest) ← readItems readItem fuel rest
        return (item :: items, rest)
      | ']' :: rest => return ([item], rest)
      | _ => .error rest

/-- The path and the last part of a key. -/
def splitKey (key : List String) : List String × String := (key.dropLast, key.getLast?.getD "")

/-- The keys and values of an inline table that has some, up to its closing brace. The bound is
the length of the text. -/
def readPairs (readItem : List Char → Except Stuck (Piece Value)) :
    Nat → Nodes → List Char → Except Stuck (Piece Nodes)
  | 0, _, cs => .error cs
  | fuel + 1, es, cs => do
    let (key, rest) ← readKey cs
    let ((), rest) ← readMark '=' rest
    let (item, rest) ← readItem (skipBlanks rest)
    let (path, last) := splitKey key
    match es.define path last item with
    | none => .error cs
    | some es =>
      let rest := skipBlanks rest
      match rest with
      | ',' :: rest => readPairs readItem fuel es rest
      | '}' :: rest => return (es, rest)
      | _ => .error rest

/-- A value whose lists and inline tables are nested no deeper than the bound. -/
def readValue : Nat → List Char → Except Stuck (Piece Value)
  | depth + 1, '[' :: rest => do
    let (items, rest) ← readItems (readValue depth) (rest.length + 1) rest
    return (.list items, rest)
  | depth + 1, '\x7b' :: rest =>
    match skipBlanks rest with
    | '\x7d' :: rest => .ok (.table .nil, rest)
    | _ => do
      let (es, rest) ← readPairs (readValue depth) (rest.length + 1) .nil rest
      return (.table es.toEntries, rest)
  | _, cs => readScalar cs

/-! ## Lines -/

/-- A header line. -/
def readHeader (d : Document) (cs : List Char) : Except Stuck (Piece Document) := do
  let found ←
    match cs with
    | '[' :: '[' :: rest => do
      let (key, rest) ← readKey rest
      let ((), rest) ← readMark ']' rest
      let ((), rest) ← readMark ']' rest
      let ((), rest) ← readLineEnd rest
      pure (d.openSeries key, rest)
    | _ => do
      let (key, rest) ← readKey (cs.drop 1)
      let ((), rest) ← readMark ']' rest
      let ((), rest) ← readLineEnd rest
      pure (d.openTable key, rest)
  match found with
  | (some d, rest) => return (d, rest)
  | (none, _) => .error cs

/-- A line that gives a key a value. -/
def readAssignment (d : Document) (cs : List Char) : Except Stuck (Piece Document) := do
  let (key, rest) ← readKey cs
  let ((), rest) ← readMark '=' rest
  let (value, rest) ← readValue (depthLimit - 1) (skipBlanks rest)
  let ((), rest) ← readLineEnd rest
  let (path, last) := splitKey key
  match d.define path last value with
  | some d => return (d, rest)
  | none => .error cs

/-- All lines of a text. Each takes at least one character, so the length of the text bounds
their number. -/
def readLines : Nat → Document → List Char → Except Stuck Document
  | 0, d, _ => .ok d
  | fuel + 1, d, cs =>
    match skipBlanks cs with
    | [] => .ok d
    | c :: rest =>
      if c == '#' || c == '\n' || c == '\r' then do
        let ((), rest) ← readLineEnd (c :: rest)
        readLines fuel d rest
      else do
        let (d, rest) ← if c == '[' then readHeader d (c :: rest) else readAssignment d (c :: rest)
        readLines fuel d rest

/-! ## Documents -/

/-- The line and the column of the character behind some text, both from one. -/
def position (before : List Char) : Nat × Nat :=
  ((before.filter (· == '\n')).length + 1, (before.reverse.takeWhile (· != '\n')).length + 1)

/-- The line and the column where a text goes wrong. The end of the text counts as the column
after its last character. -/
def placeOf (text : List Char) (left : Stuck) : Nat × Nat :=
  let before := text.take (text.length - left.length)
  if left = [] then
    let (line, column) := position before.dropLast
    (line, column + 1)
  else position before

/-- The values that a document gives, or the line and the column where it goes wrong. -/
def read (text : String) : Except (Nat × Nat) Entries :=
  let cs := text.toList
  match readLines (cs.length + 1) .empty cs with
  | .ok d => .ok d.toEntries
  | .error left => .error (placeOf cs left)

end Guildhall.Settings.Toml
