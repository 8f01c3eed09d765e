-- SUMMARY: The spelling of JSON numbers, and which of them lie beyond the floating-point numbers.

/-!
# Numerals

A number is spelled as an optional sign, an integer without leading zeros, an optional
fraction and an optional exponent. `Numeral.split?` cuts the longest such spelling off a
text; `Numeral.overflows` says whether its value is beyond every floating-point number of
64 bits.
-/

namespace Guildhall.Json

structure Numeral where
  negative : Bool
  /-- The digits before the point. -/
  whole : List Char
  /-- The digits after the point; empty without a point. -/
  fraction : List Char
  /-- The exponent's sign and digits, the digits empty without an exponent. -/
  exponent : Bool × List Char
  /-- The spelling itself. -/
  lexeme : List Char

namespace Numeral

/-- The leading digits of a text and what follows them. -/
def splitDigits (cs : List Char) : List Char × List Char :=
  (cs.takeWhile Char.isDigit, cs.dropWhile Char.isDigit)

/-- Cuts the point and the fraction off; `none` if a point is followed by no digit. -/
def splitFraction? : List Char → Option (List Char × List Char)
  | '.' :: cs =>
    match splitDigits cs with
    | ([], _) => none
    | (digits, rest) => some (digits, rest)
  | cs => some ([], cs)

/-- Cuts the exponent off: whether it is negative, its digits and the spelling; `none` if its
mark is followed by no digit. -/
def splitExponent? (cs : List Char) : Option ((Bool × List Char) × List Char × List Char) :=
  match cs with
  | [] => some ((false, []), [], [])
  | mark :: rest =>
    if mark = 'e' ∨ mark = 'E' then
      let (negative, sign, rest) : Bool × List Char × List Char :=
        match rest with
        | '-' :: r => (true, ['-'], r)
        | '+' :: r => (false, ['+'], r)
        | r => (false, [], r)
      match splitDigits rest with
      | ([], _) => none
      | (digits, rest) => some ((negative, digits), mark :: sign ++ digits, rest)
    else some ((false, []), [], cs)

/-- Cuts a number off the front of a text; `none` if no number stands there. -/
def split? (cs : List Char) : Option (Numeral × List Char) := do
  let (negative, sign, cs) : Bool × List Char × List Char :=
    match cs with
    | '-' :: r => (true, ['-'], r)
    | r => (false, [], r)
  let (whole, cs) := splitDigits cs
  if whole = [] ∨ (whole.head? = some '0' ∧ whole ≠ ['0']) then none
  let (fraction, cs) ← splitFraction? cs
  let (exponent, spelling, cs) ← splitExponent? cs
  let point := if fraction = [] then [] else '.' :: fraction
  some ({ negative, whole, fraction, exponent, lexeme := sign ++ whole ++ point ++ spelling }, cs)

/-- The integer that the number is written as, if it is written as one; `-0` is none. -/
def integer? (n : Numeral) : Option Int :=
  if n.fraction = [] ∧ n.exponent.2 = [] then
    let value := Nat.ofDigitChars 10 n.whole 0
    if n.negative then (if value = 0 then none else some (-value)) else some value
  else none

/-- The least number that no longer rounds to a floating-point number of 64 bits. -/
def limit : Nat := Nat.pow 2 1024 - Nat.pow 2 970

/-- Whether `significand * 10 ^ exponent` reaches the limit. Far from the limit the number of
digits decides, so that no huge power is ever computed. -/
def reachesLimit (significand : Nat) (exponent : Int) : Bool :=
  if significand = 0 then false
  else
    let magnitude := (Nat.toDigits 10 significand).length + exponent
    if magnitude < 300 then false
    else if magnitude > 320 then true
    else if exponent < 0 then limit * Nat.pow 10 exponent.natAbs ≤ significand
    else limit ≤ significand * Nat.pow 10 exponent.natAbs

/-- Whether the number is beyond every floating-point number of 64 bits. -/
def overflows (n : Numeral) : Bool :=
  let exponent : Int := Nat.ofDigitChars 10 n.exponent.2 0
  reachesLimit (Nat.ofDigitChars 10 (n.whole ++ n.fraction) 0)
    ((if n.exponent.1 then -exponent else exponent) - n.fraction.length)

end Numeral

end Guildhall.Json
