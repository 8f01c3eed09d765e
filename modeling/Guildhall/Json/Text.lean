-- SUMMARY: Reading a JSON value from text, as far as the text goes right, and writing a value without blanks.
import Guildhall.Hex
import Guildhall.Json.Numeral
import Guildhall.Json.Tree

/-!
# JSON text

`Json.Document.ofString` reads a text, `Json.render` writes a value. Reading never fails as a
whole: where the text goes wrong the value gets a broken part, and reading ends there.

The readers below return the value with the text that is left, or with `none` where the text
went wrong. Their first argument bounds the number of steps; twice the length of the text
is always enough, since every second step consumes a character.
-/

namespace Guildhall.Json

/-! ## Strings -/

/-- A part of a string: a character, or half of a surrogate pair that an escape names. -/
inductive Piece where
  | char (c : Char)
  | high (unit : Nat)
  | low (unit : Nat)
  deriving DecidableEq

/-- The part that a four-digit escape names. -/
def Piece.ofUnit (unit : Nat) : Piece :=
  if 0xD800 ≤ unit ∧ unit < 0xDC00 then .high unit
  else if 0xDC00 ≤ unit ∧ unit < 0xE000 then .low unit
  else .char (Char.ofNat unit)

/-- Joins the halves of surrogate pairs; `none` if a half stands alone. -/
def Piece.join : List Piece → Option (List Char)
  | [] => some []
  | .char c :: ps => (join ps).map (c :: ·)
  | .high h :: .low l :: ps =>
    (join ps).map (Char.ofNat (0x10000 + (h - 0xD800) * 0x400 + (l - 0xDC00)) :: ·)
  | _ => none

/-- The character that a one-letter escape stands for. -/
def escaped? : Char → Option Char
  | '"' => some '"'
  | '\\' => some '\\'
  | '/' => some '/'
  | 'b' => some '\x08'
  | 'f' => some '\x0c'
  | 'n' => some '\n'
  | 'r' => some '\r'
  | 't' => some '\t'
  | _ => none

/-- Reads a string behind its opening quote, up to and with the closing one; `none` at a
control character, at an unknown escape and at the end of the text. -/
def scanString : List Char → Option (List Piece × List Char)
  | [] => none
  | '"' :: cs => some ([], cs)
  | '\\' :: 'u' :: a :: b :: c :: d :: cs => do
    let unit ← Hex.number? [a, b, c, d]
    let (ps, rest) ← scanString cs
    some (Piece.ofUnit unit :: ps, rest)
  | '\\' :: e :: cs => do
    let c ← escaped? e
    let (ps, rest) ← scanString cs
    some (.char c :: ps, rest)
  | c :: cs =>
    if c = '\\' ∨ c.toNat < 0x20 then none
    else (scanString cs).map fun (ps, rest) => (.char c :: ps, rest)

/-- The string that was scanned; `none` if it holds half of a surrogate pair. -/
def stringOf (ps : List Piece) : Option String := (Piece.join ps).map String.ofList

/-! ## Values -/

/-- The blanks between the parts of a value: space, tab, line feed and carriage return. -/
def isBlank (c : Char) : Bool := c = ' ' || c = '\t' || c = '\n' || c = '\r'

def skipBlanks (cs : List Char) : List Char := cs.dropWhile isBlank

/-- The value of a number. -/
def ofNumeral (n : Numeral) : Json :=
  match n.integer? with
  | some i => .integer i
  | none => .decimal (String.ofList n.lexeme)

/-- Whether the number is beyond every floating-point number of 64 bits. -/
def overflows : Json → Bool
  | .integer i => Numeral.limit ≤ i.natAbs
  | .decimal lexeme =>
    match Numeral.split? lexeme.toList with
    | some (n, _) => n.overflows
    | none => false
  | _ => false

/-- The fault of meeting the value where another kind of value is expected. The brackets of
lists and objects tell it at once, all else is read to its end first. -/
def unexpected : Json → Fault
  | .broken => .malformed
  | .string none => .malformed
  | j => if j.overflows then .malformed else .mismatched

/-- Where the text of the next element starts: the first follows the bracket at once, the
others follow a comma. `none` if the comma is missing or nothing but the bracket follows it. -/
def nextElement? (bracket : Char) (first : Bool) (cs : List Char) : Option (List Char) :=
  match cs, first with
  | [], _ => none
  | cs, true => some cs
  | ',' :: rest, false => if (skipBlanks rest).head? = some bracket then none else some rest
  | _, false => none

mutual

/-- Reads a value. -/
def scanValue : Nat → List Char → Json × Option (List Char)
  | 0, _ => (.broken, none)
  | n + 1, cs =>
    match skipBlanks cs with
    | '"' :: rest =>
      match scanString rest with
      | some (ps, rest) => (.string (stringOf ps), some rest)
      | none => (.broken, none)
    | '[' :: rest =>
      let (items, rest) := scanItems n true rest
      (.array items, rest)
    | '{' :: rest =>
      let (fields, rest) := scanFields n true rest
      (.object fields, rest)
    | 'n' :: 'u' :: 'l' :: 'l' :: rest => (.null, some rest)
    | 't' :: 'r' :: 'u' :: 'e' :: rest => (.bool true, some rest)
    | 'f' :: 'a' :: 'l' :: 's' :: 'e' :: rest => (.bool false, some rest)
    | cs =>
      match Numeral.split? cs with
      | some (number, rest) => (ofNumeral number, some rest)
      | none => (.broken, none)

/-- Reads the elements of an array up to its closing bracket. -/
def scanItems : Nat → Bool → List Char → Items × Option (List Char)
  | 0, _, _ => (.broken, none)
  | n + 1, first, cs =>
    match skipBlanks cs with
    | ']' :: rest => (.closed, some rest)
    | cs =>
      match nextElement? ']' first cs with
      | none => (.broken, none)
      | some cs =>
        match scanValue n cs with
        | (j, none) => (.cons j .broken, none)
        | (j, some rest) =>
          let (js, rest) := scanItems n false rest
          (.cons j js, rest)

/-- Reads the fields of an object up to its closing bracket. -/
def scanFields : Nat → Bool → List Char → Fields × Option (List Char)
  | 0, _, _ => (.broken, none)
  | n + 1, first, cs =>
    match skipBlanks cs with
    | '}' :: rest => (.closed, some rest)
    | cs =>
      match nextElement? '}' first cs with
      | none => (.broken, none)
      | some cs =>
        match skipBlanks cs with
        | '"' :: rest =>
          match scanString rest with
          | none => (.broken, none)
          | some (ps, rest) =>
            match skipBlanks rest with
            | ':' :: rest =>
              match scanValue n rest with
              | (j, none) => (.cons (stringOf ps) j .broken, none)
              | (j, some rest) =>
                let (fs, rest) := scanFields n false rest
                (.cons (stringOf ps) j fs, rest)
            | _ => (.cons (stringOf ps) .broken .broken, none)
        | cs =>
          if first && (scanValue n cs).1.unexpected == .mismatched then (.stray, none)
          else (.broken, none)

end

/-- A text read as one value. -/
structure Document where
  value : Json
  /-- Whether anything but blanks follows the value. -/
  trailing : Bool
  deriving DecidableEq

def Document.ofChars (cs : List Char) : Document :=
  match scanValue (2 * cs.length + 2) cs with
  | (j, none) => ⟨j, false⟩
  | (j, some rest) => ⟨j, skipBlanks rest ≠ []⟩

def Document.ofString (s : String) : Document := ofChars s.toList

/-! ## Writing -/

/-- A character inside a written string. Quotes, backslashes and control characters are
escaped, all others stand for themselves. -/
def escape (c : Char) : List Char :=
  if c = '"' then ['\\', '"']
  else if c = '\\' then ['\\', '\\']
  else if c = '\x08' then ['\\', 'b']
  else if c = '\x0c' then ['\\', 'f']
  else if c = '\n' then ['\\', 'n']
  else if c = '\r' then ['\\', 'r']
  else if c = '\t' then ['\\', 't']
  else if c.toNat < 0x20 then '\\' :: 'u' :: Hex.digits 4 c.toNat
  else [c]

/-- A string in quotes. Half of a surrogate pair is written as an escape. -/
def renderString : Option String → List Char
  | some s => '"' :: s.toList.flatMap escape ++ ['"']
  | none => ['"', '\\', 'u', 'd', '8', '0', '0', '"']

/-- An integer in decimal digits. -/
def renderInteger (i : Int) : List Char :=
  if i < 0 then '-' :: Nat.toDigits 10 i.natAbs else Nat.toDigits 10 i.natAbs

mutual

/-- The value without blanks; broken parts are left out. -/
def renderChars : Json → List Char
  | .null => ['n', 'u', 'l', 'l']
  | .bool true => ['t', 'r', 'u', 'e']
  | .bool false => ['f', 'a', 'l', 's', 'e']
  | .integer i => renderInteger i
  | .decimal lexeme => lexeme.toList
  | .string s => renderString s
  | .array items => '[' :: items.renderChars []
  | .object fields => '{' :: fields.renderChars []
  | .broken => []

def Items.renderChars (separator : List Char) : Items → List Char
  | .closed => [']']
  | .broken => []
  | .cons j js => separator ++ j.renderChars ++ js.renderChars [',']

def Fields.renderChars (separator : List Char) : Fields → List Char
  | .closed => ['}']
  | .broken | .stray => []
  | .cons k j fs => separator ++ renderString k ++ ':' :: j.renderChars ++ fs.renderChars [',']

end

/-- The value written without blanks. -/
def render (j : Json) : String := String.ofList j.renderChars

end Guildhall.Json
