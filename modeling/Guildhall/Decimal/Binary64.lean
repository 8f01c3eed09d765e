-- SUMMARY: Floating-point numbers of 64 bits: the nearest one to a decimal, and the nearest whole number to one.

/-!
# Floating-point numbers

A `Binary64` is not a number, infinite, or a significand below `2 ^ 53` times a power of two.
Everything here is exact arithmetic on natural numbers: a decimal is brought to the nearest
number that can be held, and halfway cases go to the even significand.
-/

namespace Guildhall

/-- A floating-point number of 64 bits. -/
inductive Binary64 where
  | notANumber
  | infinite (negative : Bool)
  /-- The number `significand * 2 ^ exponent` with a sign. The exponent is at least -1074, the
  significand below `2 ^ 53`, and at least `2 ^ 52` unless the exponent is the least one. -/
  | finite (negative : Bool) (significand : Nat) (exponent : Int)
  deriving DecidableEq, Repr

/-- The quotient rounded to the nearest whole number, halves to the even one. -/
def roundDiv (num den : Nat) : Nat :=
  let quotient := num / den
  match compare (2 * (num % den)) den with
  | .lt => quotient
  | .gt => quotient + 1
  | .eq => if quotient % 2 = 0 then quotient else quotient + 1

/-- The rounded quotient is within half a unit of the exact one. -/
theorem roundDiv_near {num den : Nat} (h : 0 < den) :
    2 * (roundDiv num den * den) ≤ 2 * num + den ∧
      2 * num ≤ 2 * (roundDiv num den * den) + den := by
  have split := Nat.div_add_mod num den
  have small := Nat.mod_lt num h
  rw [Nat.mul_comm] at split
  simp only [roundDiv]
  generalize num / den = q at *
  generalize num % den = r at *
  have step : (q + 1) * den = q * den + den := Nat.succ_mul q den
  split <;> rename_i order
  · rw [Nat.compare_eq_lt] at order; omega
  · rw [Nat.compare_eq_gt] at order; rw [step]; omega
  · rw [Nat.compare_eq_eq] at order
    split
    · omega
    · rw [step]; omega

namespace Binary64

/-- The least exponent. -/
def leastExponent : Int := -1074

/-- The least significand that is not below another exponent's, `2 ^ 52`. -/
def leastNormal : Nat := 0x10000000000000

/-- Zero with a sign. -/
def zero (negative : Bool) : Binary64 := .finite negative 0 leastExponent

/-- The largest `e` with `2 ^ e * den ≤ num`, for positive numbers. -/
def magnitude (num den : Nat) : Int :=
  let guess : Int := (num.log2 : Int) - den.log2
  if den <<< guess.toNat ≤ num <<< (-guess).toNat then guess else guess - 1

/-- The nearest number to a positive fraction. -/
def ofRatio (negative : Bool) (num den : Nat) : Binary64 :=
  let exponent := max (magnitude num den - 52) leastExponent
  let significand := roundDiv (num <<< (-exponent).toNat) (den <<< exponent.toNat)
  let (significand, exponent) : Nat × Int :=
    if significand = 2 * leastNormal then (leastNormal, exponent + 1) else (significand, exponent)
  if 971 < exponent then .infinite negative else .finite negative significand exponent

/-- The nearest number to `digits * 10 ^ exponent`. Far beyond the largest and the least number
the count of digits decides, so that no huge power is computed. -/
def ofDecimal (negative : Bool) (digits : Nat) (exponent : Int) : Binary64 :=
  if digits = 0 then zero negative
  else
    let places : Int := (Nat.toDigits 10 digits).length + exponent
    if 400 < places then .infinite negative
    else if places < -400 then zero negative
    else ofRatio negative (digits * Nat.pow 10 exponent.toNat) (Nat.pow 10 (-exponent).toNat)

/-- The nearest natural number below a bound, halves upwards. Numbers below zero go to zero and
numbers beyond the bound to the bound; what is not a number goes to zero. -/
def toNat (bound : Nat) : Binary64 → Nat
  | .notANumber => 0
  | .infinite negative => if negative then 0 else bound
  | .finite true _ _ => 0
  | .finite false significand exponent =>
    let twice := (2 * significand) <<< exponent.toNat
    let unit := 1 <<< (-exponent).toNat
    min bound ((twice + unit) / (2 * unit))

end Binary64

end Guildhall
