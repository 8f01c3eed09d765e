-- SUMMARY: Numbers in plain text: whole numbers with a sign, and floating-point numbers.
import Guildhall.Decimal.Binary64

/-!
# Reading numbers

The digits are the ten of ASCII, and nothing may stand around a number. A floating-point number
may leave out the digits on one side of its point; infinity and what is not a number are
spelled in any case of letters.
-/

namespace Guildhall

/-- The sign at the front of a text, if it is there, and what follows. -/
def splitSign : List Char → Bool × List Char
  | '-' :: cs => (true, cs)
  | '+' :: cs => (false, cs)
  | cs => (false, cs)

/-- The value of a text that is one or more digits. -/
def digitsValue? (cs : List Char) : Option Nat :=
  if cs ≠ [] ∧ cs.all Char.isDigit then some (Nat.ofDigitChars 10 cs 0) else none

/-- A natural number up to a bound, with an optional plus sign. -/
def natural? (bound : Nat) (cs : List Char) : Option Nat := do
  let n ← digitsValue? (match cs with | '+' :: rest => rest | _ => cs)
  if n ≤ bound then some n else none

/-- A whole number of 64 bits with an optional sign. -/
def integer64? (cs : List Char) : Option Int := do
  let (negative, cs) := splitSign cs
  let n ← digitsValue? cs
  let value : Int := if negative then -n else n
  if Int64.minValue.toInt ≤ value ∧ value ≤ Int64.maxValue.toInt then some value else none

namespace Binary64

/-- The exponent after the digits of a number: `0` if there is none. -/
def exponent? : List Char → Option Int
  | [] => some 0
  | mark :: cs =>
    if mark.toLower = 'e' then do
      let (negative, cs) := splitSign cs
      let n ← digitsValue? cs
      some (if negative then -n else n)
    else none

/-- A number without its sign. -/
def unsigned? (negative : Bool) (cs : List Char) : Option Binary64 := do
  let whole := cs.takeWhile Char.isDigit
  let rest := cs.dropWhile Char.isDigit
  let (fraction, rest) : List Char × List Char :=
    match rest with
    | '.' :: rest => (rest.takeWhile Char.isDigit, rest.dropWhile Char.isDigit)
    | _ => ([], rest)
  let digits := whole ++ fraction
  if digits = [] then none
  let exponent ← exponent? rest
  some (ofDecimal negative (Nat.ofDigitChars 10 digits 0) (exponent - fraction.length))

/-- A floating-point number, if the text spells one. -/
def ofChars? (cs : List Char) : Option Binary64 :=
  let (negative, cs) := splitSign cs
  let word := String.ofList (cs.map Char.toLower)
  if word = "inf" ∨ word = "infinity" then some (.infinite negative)
  else if word = "nan" then some .notANumber
  else unsigned? negative cs

end Binary64

end Guildhall
