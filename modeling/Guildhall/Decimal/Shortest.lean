-- SUMMARY: The fewest decimal digits that read back as a given floating-point number, and numbers as text.
import Guildhall.Decimal.Binary64

/-!
# Shortest decimals

The reals that round to a floating-point number form an interval around it. Of the decimals in
that interval `Binary64.shortest` takes one with the fewest digits, and of those the nearest to
the number; of two that are equally near it takes the larger. `Binary64.text` writes it out
without an exponent.
-/

namespace Guildhall

/-- The decimal `digits * 10 ^ exponent`. -/
structure Decimal where
  digits : Nat
  exponent : Int
  deriving DecidableEq, Repr

namespace Decimal

/-- Compares `a * 10 ^ i` with `n * 2 ^ j`, exactly. -/
def compareScaled (a : Nat) (i : Int) (n : Nat) (j : Int) : Ordering :=
  compare ((a * Nat.pow 10 i.toNat) <<< (-j).toNat) ((n * Nat.pow 10 (-i).toNat) <<< j.toNat)

/-- Takes up to `fuel` zeros off the end of the digits. -/
def stripZeros : Nat → Decimal → Decimal
  | 0, d => d
  | fuel + 1, d =>
    if d.digits ≠ 0 ∧ d.digits % 10 = 0 then stripZeros fuel ⟨d.digits / 10, d.exponent + 1⟩ else d

/-- The decimal written out without an exponent. -/
def layOut (d : Decimal) : List Char :=
  let digits := Nat.toDigits 10 d.digits
  if 0 ≤ d.exponent then digits ++ List.replicate d.exponent.toNat '0'
  else
    let places := d.exponent.natAbs
    let digits := List.replicate (places + 1 - digits.length) '0' ++ digits
    digits.take (digits.length - places) ++ '.' :: digits.drop (digits.length - places)

end Decimal

namespace Binary64

/-- Whether the decimal rounds to `significand * 2 ^ exponent`. The interval of the reals that do
ends halfway to the two neighbours, and its ends belong to it if the significand is even. Below
a power of two the neighbour is only half as far away. -/
def readsBack (significand : Nat) (exponent : Int) (d : Decimal) : Bool :=
  let narrow := significand = leastNormal ∧ leastExponent < exponent
  let low := if narrow then 4 * significand - 1 else 4 * significand - 2
  let high := 4 * significand + 2
  let even := significand % 2 = 0
  let below := Decimal.compareScaled d.digits d.exponent low (exponent - 2)
  let above := Decimal.compareScaled d.digits d.exponent high (exponent - 2)
  (below = .gt ∨ (even ∧ below = .eq)) ∧ (above = .lt ∨ (even ∧ above = .eq))

/-- The least `k` with `significand * 2 ^ exponent < 10 ^ k`. The binary logarithm leaves two
candidates. -/
def decimalPlaces (significand : Nat) (exponent : Int) : Int :=
  let log := (significand.log2 : Int) + exponent
  let guess := (log * 30103).fdiv 100000 + 1
  if Decimal.compareScaled 1 guess significand exponent = .gt then guess else guess + 1

/-- The decimal with a given last place that reads back and is nearest, if there is one. -/
def candidate? (significand : Nat) (exponent place : Int) : Option Decimal :=
  let m := significand
  let digits := ((m * Nat.pow 10 (-place).toNat) <<< exponent.toNat)
    / (Nat.pow 10 place.toNat <<< (-exponent).toNat)
  let low : Decimal := ⟨digits, place⟩
  let high : Decimal := ⟨digits + 1, place⟩
  match readsBack m exponent low, readsBack m exponent high with
  | true, true =>
    if Decimal.compareScaled (2 * digits + 1) place (2 * m) exponent = .gt then some low
    else some high
  | true, false => some low
  | false, true => some high
  | false, false => none

/-- The exact decimal of `significand * 2 ^ exponent`. -/
def exact (significand : Nat) (exponent : Int) : Decimal :=
  ⟨(significand * Nat.pow 5 (-exponent).toNat) <<< exponent.toNat, min exponent 0⟩

/-- The decimal with the fewest digits that reads back, for a significand other than zero.
Seventeen digits are always enough. -/
def shortest (significand : Nat) (exponent : Int) : Decimal :=
  let places := decimalPlaces significand exponent
  let found := (List.range 17).findSome? fun (n : Nat) =>
    candidate? significand exponent (places - (n + 1))
  (found.getD (exact significand exponent)).stripZeros 400

/-- The number as text, with the fewest digits that read back and no exponent. -/
def text : Binary64 → String
  | .notANumber => "NaN"
  | .infinite negative => if negative then "-inf" else "inf"
  | .finite negative significand exponent =>
    let sign := if negative then ['-'] else []
    let digits := if significand = 0 then ['0'] else (shortest significand exponent).layOut
    String.ofList (sign ++ digits)

end Binary64

end Guildhall
