-- SUMMARY: The pieces of TOML text: blanks and comments, keys, strings, numbers, and dates.
import Guildhall.Decimal.Binary64
import Guildhall.Settings.Value

/-!
# Lexemes

Each reader takes a piece off the front of a text and returns what follows. Where the text goes
wrong it returns what was left there, so that the place can be reported. Readers whose name ends
in a question mark return `none` where their piece does not start at all.
-/

namespace Guildhall.Settings.Toml

/-- A piece and what follows it. -/
abbrev Piece (α : Type) := α × List Char

/-- What is left where the text goes wrong. -/
abbrev Stuck := List Char

/-! ## Blanks and comments -/

def isBlank (c : Char) : Bool := c == ' ' || c == '\t'

def skipBlanks (cs : List Char) : List Char := cs.dropWhile isBlank

/-- Whether the character may stand in a comment: all but the control characters. -/
def isPlain (c : Char) : Bool := c == '\t' || (0x20 ≤ c.toNat && c.toNat != 0x7F)

/-- The end of a line, or of the text. -/
def lineEnd? : List Char → Option (List Char)
  | [] => some []
  | '\n' :: rest => some rest
  | '\r' :: '\n' :: rest => some rest
  | _ => none

/-- What is left after the comment at the front of a text, if there is one. -/
def skipComment : List Char → List Char
  | '#' :: rest => rest.dropWhile isPlain
  | cs => cs

/-- The rest of a line that holds no more than a comment. -/
def readLineEnd (cs : List Char) : Except Stuck (Piece Unit) :=
  let cs := skipComment (skipBlanks cs)
  match lineEnd? cs with
  | some rest => .ok ((), rest)
  | none => .error cs

/-- What is left after blanks, line ends and comments. The bound is the length of the text. -/
def skipLines : Nat → List Char → List Char
  | 0, cs => cs
  | fuel + 1, cs =>
    let cs := skipBlanks cs
    match cs with
    | [] => []
    | c :: _ =>
      if c == '#' || c == '\n' || c == '\r' then
        match lineEnd? (skipComment cs) with
        | some [] | none => cs
        | some rest => skipLines fuel rest
      else cs

/-! ## Strings -/

/-- The character of a hexadecimal number. -/
def hexChar? (digits : List Char) : Option Char :=
  if digits.all fun d => d.isDigit || ('a' ≤ d.toLower && d.toLower ≤ 'f') then
    let n := digits.foldl (fun n d =>
      16 * n + (if d.isDigit then d.toNat - 48 else d.toLower.toNat - 87)) 0
    if h : n.isValidChar then some (Char.ofNatAux n h) else none
  else none

/-- The character of an escape of one letter. -/
def escaped? : Char → Option Char
  | 'b' => some (Char.ofNat 8)
  | 't' => some '\t'
  | 'n' => some '\n'
  | 'f' => some (Char.ofNat 12)
  | 'r' => some '\r'
  | '"' => some '"'
  | '\\' => some '\\'
  | _ => none

/-- Adds a character in front of a text that was read. -/
def push (c : Char) : Except Stuck (Piece (List Char)) → Except Stuck (Piece (List Char))
  | .ok (text, rest) => .ok (c :: text, rest)
  | .error e => .error e

/-- The rest of a string in double quotes. -/
def readQuoted : List Char → Except Stuck (Piece (List Char))
  | '"' :: rest => .ok ([], rest)
  | '\\' :: 'u' :: a :: b :: c :: d :: rest =>
    match hexChar? [a, b, c, d] with
    | some x => push x (readQuoted rest)
    | none => .error (a :: b :: c :: d :: rest)
  | '\\' :: 'U' :: a :: b :: c :: d :: e :: f :: g :: h :: rest =>
    match hexChar? [a, b, c, d, e, f, g, h] with
    | some x => push x (readQuoted rest)
    | none => .error (a :: b :: c :: d :: e :: f :: g :: h :: rest)
  | '\\' :: letter :: rest =>
    match escaped? letter with
    | some x => push x (readQuoted rest)
    | none => .error (letter :: rest)
  | c :: rest => if isPlain c && c != '\\' then push c (readQuoted rest) else .error (c :: rest)
  | [] => .error []

/-- The rest of a string in single quotes. -/
def readLiteral : List Char → Except Stuck (Piece (List Char))
  | '\'' :: rest => .ok ([], rest)
  | c :: rest => if isPlain c then push c (readLiteral rest) else .error (c :: rest)
  | [] => .error []

/-- Whether nothing more stands on the line. -/
def endsLine (cs : List Char) : Bool :=
  match skipBlanks cs with
  | '\n' :: _ => true
  | '\r' :: '\n' :: _ => true
  | _ => false

/-- The rest of a string in three double quotes. While `folding`, blanks and line ends are
skipped: a backslash at the end of a line joins it to the next text. -/
def readLongQuoted : Bool → List Char → Except Stuck (Piece (List Char))
  | true, ' ' :: rest => readLongQuoted true rest
  | true, '\t' :: rest => readLongQuoted true rest
  | true, '\n' :: rest => readLongQuoted true rest
  | true, '\r' :: '\n' :: rest => readLongQuoted true rest
  | _, '"' :: '"' :: '"' :: '"' :: '"' :: rest => .ok (['"', '"'], rest)
  | _, '"' :: '"' :: '"' :: '"' :: rest => .ok (['"'], rest)
  | _, '"' :: '"' :: '"' :: rest => .ok ([], rest)
  | _, '\\' :: 'u' :: a :: b :: c :: d :: rest =>
    match hexChar? [a, b, c, d] with
    | some x => push x (readLongQuoted false rest)
    | none => .error (a :: b :: c :: d :: rest)
  | _, '\\' :: 'U' :: a :: b :: c :: d :: e :: f :: g :: h :: rest =>
    match hexChar? [a, b, c, d, e, f, g, h] with
    | some x => push x (readLongQuoted false rest)
    | none => .error (a :: b :: c :: d :: e :: f :: g :: h :: rest)
  | _, '\\' :: letter :: rest =>
    if endsLine (letter :: rest) then readLongQuoted true rest
    else
      match escaped? letter with
      | some x => push x (readLongQuoted false rest)
      | none => .error (letter :: rest)
  | _, '\r' :: '\n' :: rest => push '\n' (readLongQuoted false rest)
  | _, c :: rest =>
    if c == '\n' || (isPlain c && c != '\\') then push c (readLongQuoted false rest)
    else .error (c :: rest)
  | _, [] => .error []

/-- The rest of a string in three single quotes. -/
def readLongLiteral : List Char → Except Stuck (Piece (List Char))
  | '\'' :: '\'' :: '\'' :: '\'' :: '\'' :: rest => .ok (['\'', '\''], rest)
  | '\'' :: '\'' :: '\'' :: '\'' :: rest => .ok (['\''], rest)
  | '\'' :: '\'' :: '\'' :: rest => .ok ([], rest)
  | '\r' :: '\n' :: rest => push '\n' (readLongLiteral rest)
  | c :: rest =>
    if c == '\n' || isPlain c then push c (readLongLiteral rest) else .error (c :: rest)
  | [] => .error []

/-- A line end right behind the opening quotes of a long string does not belong to it. -/
def skipFirstLineEnd : List Char → List Char
  | '\n' :: rest => rest
  | '\r' :: '\n' :: rest => rest
  | cs => cs

/-- A string on a line: the only ones that can be keys. -/
def readShortString? : List Char → Option (Except Stuck (Piece (List Char)))
  | '"' :: rest => some (readQuoted rest)
  | '\'' :: rest => some (readLiteral rest)
  | _ => none

def readString? : List Char → Option (Except Stuck (Piece (List Char)))
  | '"' :: '"' :: '"' :: rest => some (readLongQuoted false (skipFirstLineEnd rest))
  | '\'' :: '\'' :: '\'' :: rest => some (readLongLiteral (skipFirstLineEnd rest))
  | cs => readShortString? cs

/-! ## Keys -/

def isBareKeyChar (c : Char) : Bool := c.isAlphanum || c == '_' || c == '-'

/-- One part of a key. -/
def readKeyPart (cs : List Char) : Except Stuck (Piece String) :=
  match readShortString? cs with
  | some reading => reading.map fun (text, rest) => (String.ofList text, rest)
  | none =>
    match cs.takeWhile isBareKeyChar with
    | [] => .error cs
    | name => .ok (String.ofList name, cs.dropWhile isBareKeyChar)

/-- The parts of a key behind the first one. The bound is the length of the text. -/
def readKeyRest : Nat → List Char → Except Stuck (Piece (List String))
  | fuel + 1, '.' :: cs => do
    let (part, rest) ← readKeyPart (skipBlanks cs)
    let (parts, rest) ← readKeyRest fuel (skipBlanks rest)
    return (part :: parts, rest)
  | _, cs => .ok ([], cs)

/-- The greatest depth of keys and values. -/
def depthLimit : Nat := 80

/-- A key: parts with points between them, and the blanks around them. -/
def readKey (cs : List Char) : Except Stuck (Piece (List String)) := do
  let (part, rest) ← readKeyPart (skipBlanks cs)
  let rest := skipBlanks rest
  let (parts, rest) ← readKeyRest rest.length rest
  if depthLimit ≤ parts.length + 1 then .error cs else .ok (part :: parts, rest)

/-! ## Numbers -/

/-- Digits behind a digit; single underscores may stand between two digits. -/
def readMoreDigits (isDigit : Char → Bool) : List Char → Except Stuck (Piece (List Char))
  | '_' :: d :: rest =>
    if isDigit d then push d (readMoreDigits isDigit rest) else .error (d :: rest)
  | ['_'] => .error []
  | d :: rest =>
    if isDigit d then push d (readMoreDigits isDigit rest) else .ok ([], d :: rest)
  | [] => .ok ([], [])

/-- One or more digits. -/
def readDigits (isDigit : Char → Bool) : List Char → Except Stuck (Piece (List Char))
  | d :: rest =>
    if isDigit d then push d (readMoreDigits isDigit rest) else .error (d :: rest)
  | [] => .error []

def isHexDigit (c : Char) : Bool := c.isDigit || ('a' ≤ c.toLower && c.toLower ≤ 'f')

def isOctDigit (c : Char) : Bool := '0' ≤ c && c ≤ '7'

def isBinDigit (c : Char) : Bool := c == '0' || c == '1'

/-- The value of digits in a base. -/
def valueIn (base : Nat) (digits : List Char) : Nat :=
  digits.foldl (fun n d =>
    base * n + (if d.isDigit then d.toNat - 48 else d.toLower.toNat - 87)) 0

/-- A sign at the front of a text: whether it is a minus, and what follows. -/
def readSign : List Char → Bool × List Char
  | '-' :: rest => (true, rest)
  | '+' :: rest => (false, rest)
  | cs => (false, cs)

/-- The digits of a whole number, which has no leading zeros. -/
def readWhole (cs : List Char) : Except Stuck (Piece (List Char)) :=
  match cs with
  | '0' :: rest => .ok (['0'], rest)
  | _ => readDigits Char.isDigit cs

/-- The point and the digits behind it; no digits if there is no point. -/
def readFraction : List Char → Except Stuck (Piece (List Char))
  | '.' :: rest => readDigits Char.isDigit rest
  | cs => .ok ([], cs)

/-- The exponent of a number, if there is one. -/
def readExponent (cs : List Char) : Except Stuck (Piece (Option Int)) :=
  match cs with
  | mark :: rest =>
    if mark == 'e' || mark == 'E' then do
      let (negative, rest) := readSign rest
      let (digits, rest) ← readDigits Char.isDigit rest
      let n : Int := valueIn 10 digits
      return (some (if negative then -n else n), rest)
    else .ok (none, cs)
  | [] => .ok (none, [])

/-- A whole number in a base. It must fit into 64 bits with a sign. -/
def readInBase (base : Nat) (isDigit : Char → Bool) (start cs : List Char) :
    Except Stuck (Piece Scalar) := do
  let (digits, rest) ← readDigits isDigit cs
  let n := valueIn base digits
  if n ≤ Int64.maxValue.toInt then .ok (.integer n, rest) else .error start

/-- Infinity or what is not a number, behind the sign. -/
def readSpecial? (negative : Bool) : List Char → Option (Scalar × List Char)
  | 'i' :: 'n' :: 'f' :: rest => some (.real (.infinite negative), rest)
  | 'n' :: 'a' :: 'n' :: rest => some (.real .notANumber, rest)
  | _ => none

/-- A number in the base ten. -/
def readDecimal (cs : List Char) : Except Stuck (Piece Scalar) :=
  let (negative, unsigned) := readSign cs
  match readSpecial? negative unsigned with
  | some found => .ok found
  | none => do
    let (whole, rest) ← readWhole unsigned
    let (fraction, rest) ← readFraction rest
    let (exponent, rest) ← readExponent rest
    if fraction = [] ∧ exponent = none then
      let n : Int := valueIn 10 whole
      let n := if negative then -n else n
      if Int64.minValue.toInt ≤ n ∧ n ≤ Int64.maxValue.toInt then .ok (.integer n, rest)
      else .error cs
    else
      let x := Binary64.ofDecimal negative (valueIn 10 (whole ++ fraction))
        (exponent.getD 0 - fraction.length)
      if x = .infinite false then .error cs else .ok (.real x, rest)

def readNumber (cs : List Char) : Except Stuck (Piece Scalar) :=
  match cs with
  | '0' :: 'x' :: rest => readInBase 16 isHexDigit cs rest
  | '0' :: 'o' :: rest => readInBase 8 isOctDigit cs rest
  | '0' :: 'b' :: rest => readInBase 2 isBinDigit cs rest
  | _ => readDecimal cs

/-! ## Dates -/

/-- A number of a fixed count of digits within bounds. -/
def readField? (count low high : Nat) (cs : List Char) : Option (List Char × List Char) :=
  let digits := cs.take count
  if digits.length = count ∧ digits.all Char.isDigit ∧ low ≤ valueIn 10 digits
      ∧ valueIn 10 digits ≤ high then
    some (digits, cs.drop count)
  else none

/-- The same where it must stand. -/
def readField (count low high : Nat) (cs : List Char) : Except Stuck (Piece (List Char)) :=
  match readField? count low high cs with
  | some found => .ok found
  | none => .error cs

def readMark (mark : Char) (cs : List Char) : Except Stuck (Piece Unit) :=
  match cs with
  | c :: rest => if c == mark then .ok ((), rest) else .error cs
  | [] => .error []

/-- The days of a month. -/
def monthDays (year month : Nat) : Nat :=
  if month = 2 then
    (if year % 4 = 0 ∧ (year % 100 ≠ 0 ∨ year % 400 = 0) then 29 else 28)
  else if month = 4 ∨ month = 6 ∨ month = 9 ∨ month = 11 then 30
  else 31

/-- The month and the day behind a year. -/
def readMonthDay (year cs : List Char) : Except Stuck (Piece (List Char)) := do
  let (month, rest) ← readField 2 1 12 cs
  let ((), rest) ← readMark '-' rest
  let (day, rest) ← readField 2 1 (monthDays (valueIn 10 year) (valueIn 10 month)) rest
  return (year ++ '-' :: month ++ '-' :: day, rest)

/-- A fraction of a second: at most nine digits count, and zeros at the end do not show. -/
def readSecondFraction : List Char → List Char × List Char
  | '.' :: rest =>
    match rest.takeWhile Char.isDigit with
    | [] => ([], '.' :: rest)
    | digits =>
      let shown := ((digits.take 9).reverse.dropWhile (· == '0')).reverse
      (if shown = [] then [] else '.' :: shown, rest.dropWhile Char.isDigit)
  | cs => ([], cs)

/-- A time of the day. -/
def readTime? (cs : List Char) : Option (Except Stuck (Piece (List Char))) :=
  match readField? 2 0 23 cs with
  | some (hour, ':' :: rest) => some do
    let (minute, rest) ← readField 2 0 59 rest
    let ((), rest) ← readMark ':' rest
    let (second, rest) ← readField 2 0 60 rest
    let (fraction, rest) := readSecondFraction rest
    return (hour ++ ':' :: minute ++ ':' :: second ++ fraction, rest)
  | _ => none

/-- The offset of a time zone; a negative offset of nothing is written as a positive one. -/
def readOffset (cs : List Char) : Except Stuck (Piece (List Char)) :=
  match cs with
  | [] => .ok ([], [])
  | mark :: rest =>
    if mark == 'Z' || mark == 'z' then .ok (['Z'], rest)
    else if mark == '+' || mark == '-' then do
      let (hour, rest) ← readField 2 0 23 rest
      let ((), rest) ← readMark ':' rest
      let (minute, rest) ← readField 2 0 59 rest
      let sign := if valueIn 10 (hour ++ minute) = 0 then '+' else mark
      return (sign :: hour ++ ':' :: minute, rest)
    else .ok ([], cs)

/-- A date, and the time behind it if there is one. -/
def readDate (year cs : List Char) : Except Stuck (Piece (List Char)) := do
  let (date, rest) ← readMonthDay year cs
  match rest with
  | [] => return (date, [])
  | mark :: after =>
    if mark == 'T' || mark == 't' || mark == ' ' then
      match readTime? after with
      | none => return (date, rest)
      | some reading =>
        let (time, rest) ← reading
        let (offset, rest) ← readOffset rest
        return (date ++ 'T' :: time ++ offset, rest)
    else return (date, rest)

/-- A date or a time, as text. -/
def readMoment? (cs : List Char) : Option (Except Stuck (Piece (List Char))) :=
  match readField? 4 0 9999 cs with
  | some (year, '-' :: rest) => some (readDate year rest)
  | _ => readTime? cs

end Guildhall.Settings.Toml
