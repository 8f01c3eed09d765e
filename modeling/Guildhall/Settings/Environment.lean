-- SUMMARY: Environment variables, the settings that they name, and files that add to them.
import Guildhall.RoleRequest
import Guildhall.Settings.Path

/-!
# The environment

A variable names a setting by its path behind `HEARTH__`, with two underscores for each point, in
any case of letters. A file of variables adds those that are not set. It is read line by line;
at the first line that makes no sense its reading ends, and the variables before are kept.
-/

namespace Guildhall.Settings

/-- The environment variables in order. -/
abbrev Environment := List (String × String)

namespace Environment

/-- The value of a variable; of two with one name the first counts. -/
def get? (env : Environment) (name : String) : Option String :=
  (env.find? fun v => v.1 == name).map (·.2)

/-- Sets a variable unless it is set. -/
def add (env : Environment) (name value : String) : Environment :=
  if (env.get? name).isSome then env else env ++ [(name, value)]

/-! ## Settings -/

/-- The lower case of a letter: those of ASCII, and the Kelvin sign, which is a `K`. -/
def lower (c : Char) : Char := if c.toNat = 0x212A then 'k' else c.toLower

/-- Writes a point for each two underscores. -/
def dotted : List Char → List Char
  | '_' :: '_' :: rest => '.' :: dotted rest
  | c :: rest => c :: dotted rest
  | [] => []

/-- What stands in front of the names of settings. -/
def mark : List Char := "hearth__".toList

/-- The name of the setting that a variable names. -/
def settingName? (name : String) : Option String :=
  let cs := name.toList.map lower
  if mark.isPrefixOf cs then some (String.ofList (dotted (cs.drop mark.length))) else none

/-- Names with values in alphabetical order; of two with one name the later one counts. -/
def byName (named : List (String × Value)) : List (String × Value) :=
  named.foldl (fun found (name, value) => insert name value found) []
where
  insert (name : String) (value : Value) : List (String × Value) → List (String × Value)
    | [] => [(name, value)]
    | (n, v) :: rest =>
      if n = name then (name, value) :: rest
      else if name < n then (name, value) :: (n, v) :: rest
      else (n, v) :: insert name value rest

/-- The settings that the variables name. -/
def settings (env : Environment) : List (String × Value) :=
  byName (env.filterMap fun (name, text) =>
    (settingName? name).map fun setting =>
      (setting, .scalar (Scalar.ofText text) (some .environment)))

end Environment

/-! ## Lines of variable files -/

namespace EnvFile

/-- What a line is in the middle of. -/
inductive LineState where
  | text
  | blank
  | escape
  | quoted (double : Bool)
  | quotedEscape (double : Bool)
  deriving DecidableEq, Repr

/-- The state after a character outside quotes. -/
def LineState.outside (c : Char) : LineState :=
  if c = '\\' then .escape
  else if c = '"' then .quoted true
  else if c = '\'' then .quoted false
  else .text

def LineState.step (c : Char) : LineState → LineState
  | .blank => .outside c
  | .escape => .text
  | .text =>
    if isWhiteSpace c && c != '\n' && c != '\r' then .blank else .outside c
  | .quoted double =>
    if c = '\\' then .quotedEscape double
    else if c = (if double then '"' else '\'') then .text
    else .quoted double
  | .quotedEscape double => .quoted double

/-- Follows a line: its text up to a comment and whether there is one, and the state at its end.
A comment starts behind a blank. -/
def follow : LineState → List Char → List Char × Bool × LineState
  | st, [] => ([], false, st)
  | st, c :: cs =>
    if st = .blank ∧ c = '#' then ([], true, .text)
    else
      let (kept, comment, last) := follow (st.step c) cs
      (c :: kept, comment, last)

/-- Cuts a text behind each line end. -/
def splitLines : List Char → List (List Char)
  | [] => []
  | c :: cs =>
    if c = '\n' then [c] :: splitLines cs
    else
      match splitLines cs with
      | line :: lines => (c :: line) :: lines
      | [] => [[c]]

/-- A line without its line end. -/
def dropLineEnd (line : List Char) : List Char :=
  match line.reverse with
  | '\n' :: '\r' :: rest => rest.reverse
  | '\n' :: rest => rest.reverse
  | _ => line

/-- Joins lines until no quote and no escape is open and no blank is last; `none` stands for a
line that is still open at the end of the text. -/
def joinLines (sofar : List Char) (st : LineState) : List (List Char) → List (Option (List Char))
  | [] => if st = .text then [] else [none]
  | line :: lines =>
    if ((sofar ++ line).dropWhile isWhiteSpace).head? = some '#' then
      joinLines [] .text lines
    else
      match follow st line with
      | (kept, true, _) => some (sofar ++ kept) :: joinLines [] .text lines
      | (_, false, .text) => some (dropLineEnd (sofar ++ line)) :: joinLines [] .text lines
      | (_, false, st) => joinLines (sofar ++ line) st lines

/-! ## Values in variable files -/

/-- What a value is in the middle of. -/
inductive ValueState where
  | text
  | escape
  /-- Single quotes. -/
  | literal
  /-- The name of a variable behind a dollar sign, backwards. -/
  | named (name : List Char)
  /-- The name of a variable in braces, backwards. -/
  | braced (name : List Char)
  /-- Behind a blank outside quotes: nothing but a comment may follow. -/
  | ended
  deriving DecidableEq, Repr

/-- The characters of a variable's name behind a dollar sign: letters and digits of ASCII. -/
def isNameChar (c : Char) : Bool := c.isAlphanum

/-- The value of the variable with a name, written backwards. -/
def expand (env : Environment) (name : List Char) : List Char :=
  ((env.get? (String.ofList name.reverse)).getD "").toList

/-- The character of an escape. -/
def escaped? (c : Char) : Option Char :=
  if c = 'n' then some '\n'
  else if c = '\\' ∨ c = '\'' ∨ c = '"' ∨ c = '$' ∨ c = ' ' then some c
  else none

/-- Reads a value; `double` tells whether double quotes are open. -/
def readValue (env : Environment) : ValueState → Bool → List Char → Option (List Char)
  | .literal, _, [] => none
  | .braced _, _, [] => none
  | _, true, [] => none
  | .named name, false, [] => some (expand env name)
  | _, false, [] => some []
  | .ended, double, c :: cs =>
    if c = ' ' ∨ c = '\t' then readValue env .ended double cs
    else if c = '#' then (if double then none else some [])
    else none
  | .escape, double, c :: cs => do
    let x ← escaped? c
    return x :: (← readValue env .text double cs)
  | .literal, double, c :: cs =>
    if c = '\'' then readValue env .text double cs
    else (readValue env .literal double cs).map (c :: ·)
  | .named name, double, c :: cs =>
    if isNameChar c then readValue env (.named (c :: name)) double cs
    else if c = '\x7b' ∧ name = [] then readValue env (.braced []) double cs
    else if c = '$' then (readValue env (.named []) double cs).map (expand env name ++ ·)
    else (readValue env .text double cs).map (expand env name ++ c :: ·)
  | .braced name, double, c :: cs =>
    if c = '\x7d' then (readValue env .text double cs).map (expand env name ++ ·)
    else readValue env (.braced (c :: name)) double cs
  | .text, double, c :: cs =>
    if c = '$' then readValue env (.named []) double cs
    else if c = '\\' then readValue env .escape double cs
    else if c = '"' then readValue env .text (!double) cs
    else if double then (readValue env .text double cs).map (c :: ·)
    else if c = '\'' then readValue env .literal double cs
    else if c = ' ' ∨ c = '\t' then readValue env .ended double cs
    else (readValue env .text double cs).map (c :: ·)

/-! ## Variable files -/

/-- A variable's name at the front of a text, and what follows. -/
def splitName? (cs : List Char) : Option (String × List Char) :=
  match cs with
  | c :: _ =>
    if c.isAlpha || c == '_' then
      let belongs := fun c : Char => c.isAlphanum || c == '_' || c == '.'
      some (String.ofList (cs.takeWhile belongs), cs.dropWhile belongs)
    else none
  | [] => none

/-- What follows the equals sign at the front of a text. -/
def afterEquals? (cs : List Char) : Option (List Char) :=
  match cs.dropWhile isWhiteSpace with
  | '=' :: rest => some (rest.dropWhile isWhiteSpace)
  | _ => none

/-- The name on a line and what follows its equals sign. The word `export` may stand in front. -/
def splitLine? (cs : List Char) : Option (String × List Char) := do
  let (name, rest) ← splitName? cs
  match name, afterEquals? rest with
  | "export", none =>
    let (name, rest) ← splitName? (rest.dropWhile isWhiteSpace)
    return (name, ← afterEquals? rest)
  | _, found => return (name, ← found)

/-- Adds the variable of a line, if it has one; `none` if the line makes no sense. -/
def addLine? (env : Environment) (line : List Char) : Option Environment :=
  let cs := trimChars line
  if cs = [] ∨ cs.head? = some '#' then some env
  else do
    let (name, cs) ← splitLine? cs
    let value ← if cs = [] ∨ cs.head? = some '#' then some [] else readValue env .text false cs
    return env.add name (String.ofList value)

/-- Adds the variables of lines up to the first that makes no sense. -/
def addLines (env : Environment) : List (Option (List Char)) → Environment
  | [] => env
  | none :: _ => env
  | some line :: lines =>
    match addLine? env line with
    | none => env
    | some env => addLines env lines

end EnvFile

/-- Adds the variables of a file. -/
def Environment.addFile (env : Environment) (text : String) : Environment :=
  let cs := match text.toList with
    | '\ufeff' :: cs => cs
    | cs => cs
  EnvFile.addLines env (EnvFile.joinLines [] .text (EnvFile.splitLines cs))

end Guildhall.Settings
