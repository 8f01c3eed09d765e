-- SUMMARY: Hexadecimal digits, read in either case and written in lower case.

/-!
# Hexadecimal digits

Ids, string escapes and percent-encoded paths all spell numbers in base sixteen. Both cases
are read; `Hex.digits` writes lower case, with leading zeros up to a given width.
-/

namespace Guildhall.Hex

/-- The value of a hexadecimal digit. -/
def value? (c : Char) : Option Nat :=
  if '0' ≤ c ∧ c ≤ '9' then some (c.toNat - '0'.toNat)
  else if 'a' ≤ c ∧ c ≤ 'f' then some (c.toNat - 'a'.toNat + 10)
  else if 'A' ≤ c ∧ c ≤ 'F' then some (c.toNat - 'A'.toNat + 10)
  else none

/-- The digit for a value below sixteen. -/
def char (n : Nat) : Char := Nat.digitChar (n % 16)

/-- The lowest `width` digits of a number, the highest of them first. -/
def digits : Nat → Nat → List Char
  | 0, _ => []
  | width + 1, n => digits width (n / 16) ++ [char n]

/-- The number that a list of digits spells; `none` if one of them is no digit. -/
def number? (cs : List Char) : Option Nat :=
  cs.foldlM (fun n c => (value? c).map (16 * n + ·)) 0

theorem length_digits (width n : Nat) : (digits width n).length = width := by
  induction width generalizing n with
  | zero => rfl
  | succ w ih => simp [digits, ih]

theorem value?_char (n : Nat) : value? (char n) = some (n % 16) := by
  have h : ∀ d : Fin 16, value? (Nat.digitChar d) = some d.val := by decide
  exact h ⟨n % 16, Nat.mod_lt _ (by decide)⟩

/-- Reading the digits of a number gives the number back, as far as the width reaches. -/
theorem number?_digits (width n : Nat) : number? (digits width n) = some (n % Nat.pow 16 width) := by
  induction width generalizing n with
  | zero => simp [digits, number?, Nat.pow, Nat.mod_one]
  | succ w ih =>
    have hw := ih (n / 16)
    simp only [number?] at hw
    simp only [digits, number?, List.foldlM_append, hw, List.foldlM_cons, List.foldlM_nil,
      Option.bind_eq_bind, Option.bind_some, value?_char, Option.map_some, Option.pure_def]
    have step : Nat.pow 16 (w + 1) = 16 * Nat.pow 16 w := Nat.mul_comm ..
    rw [step, Nat.mod_mul, Nat.add_comm]

end Guildhall.Hex
