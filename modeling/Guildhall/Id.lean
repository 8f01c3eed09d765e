-- SUMMARY: Record ids, 128-bit numbers with their spellings and the ids that are minted in ascending order.
import Guildhall.Hex

/-!
# Ids

Servers, users, roles and channels are named by 128-bit numbers. An id is written as
thirty-two lower-case hexadecimal digits in groups of 8, 4, 4, 4 and 12, and ids compare as
numbers. Four spellings are read: the grouped one, the bare digits, the grouped one in
braces, and the grouped one behind `urn:uuid:`.
-/

namespace Guildhall

structure Id where
  bits : BitVec 128
  deriving DecidableEq

namespace Id

/-- The id of a number; higher bits are dropped. -/
def ofNat (n : Nat) : Id := ⟨BitVec.ofNat 128 n⟩

instance (n : Nat) : OfNat Id n := ⟨ofNat n⟩
instance : Inhabited Id := ⟨0⟩

def toNat (i : Id) : Nat := i.bits.toNat

theorem toNat_injective {i j : Id} (h : i.toNat = j.toNat) : i = j := by
  cases i; cases j; congr; exact BitVec.eq_of_toNat_eq h

theorem toNat_lt (i : Id) : i.toNat < Nat.pow 2 128 := i.bits.isLt

theorem toNat_ofNat (n : Nat) : (ofNat n).toNat = n % Nat.pow 2 128 := rfl

instance : LT Id := ⟨fun i j => i.toNat < j.toNat⟩
instance : LE Id := ⟨fun i j => i.toNat ≤ j.toNat⟩
instance (i j : Id) : Decidable (i < j) := inferInstanceAs (Decidable (i.toNat < j.toNat))
instance (i j : Id) : Decidable (i ≤ j) := inferInstanceAs (Decidable (i.toNat ≤ j.toNat))

theorem lt_iff {i j : Id} : i < j ↔ i.toNat < j.toNat := Iff.rfl
theorem le_iff {i j : Id} : i ≤ j ↔ i.toNat ≤ j.toNat := Iff.rfl

/-! ## Spellings -/

/-- Thirty-two digits in five groups, with a hyphen between the groups. -/
def group (digits : List Char) : List Char :=
  digits.take 8 ++ '-' :: (digits.drop 8).take 4 ++ '-' :: (digits.drop 12).take 4
    ++ '-' :: (digits.drop 16).take 4 ++ '-' :: digits.drop 20

/-- The digits of a grouped spelling; `none` unless the hyphens stand where they belong. -/
def ungroup? (cs : List Char) : Option (List Char) :=
  let digits := cs.take 8 ++ (cs.drop 9).take 4 ++ (cs.drop 14).take 4
    ++ (cs.drop 19).take 4 ++ cs.drop 24
  if cs.length = 36 ∧ cs = group digits then some digits else none

/-- The id that thirty-two digits spell. -/
def ofDigits? (cs : List Char) : Option Id :=
  if cs.length = 32 then (Hex.number? cs).map ofNat else none

/-- The id of a grouped spelling. -/
def ofGrouped? (cs : List Char) : Option Id :=
  (ungroup? cs).bind ofDigits?

/-- The scheme before a grouped spelling, in lower case. -/
def scheme : List Char := ['u', 'r', 'n', ':', 'u', 'u', 'i', 'd', ':']

/-- Reads any of the four spellings; which one it is shows in the length. -/
def ofChars? (cs : List Char) : Option Id :=
  if cs.length = 32 then ofDigits? cs
  else if cs.length = 36 then ofGrouped? cs
  else if cs.length = 38 ∧ cs.head? = some '{' ∧ cs.getLast? = some '}' then
    ofGrouped? (cs.tail.dropLast)
  else if cs.length = 45 ∧ (cs.take 9).map Char.toLower = scheme then ofGrouped? (cs.drop 9)
  else none

/-- Reads an id in any of its spellings. -/
def ofString? (s : String) : Option Id := ofChars? s.toList

/-- The grouped spelling, as a list of characters. -/
def chars (i : Id) : List Char := group (Hex.digits 32 i.toNat)

/-- The grouped spelling. -/
def text (i : Id) : String := String.ofList i.chars

instance : Repr Id := ⟨fun i _ => i.text⟩

/-! ## Minting -/

/-- An id minted at a moment: the milliseconds lead, so later ids are greater, and the
sequence number tells ids of one millisecond apart. The version and variant marks sit at
their places in between. -/
def minted (millis sequence : Nat) : Id :=
  ⟨BitVec.ofNat 48 millis ++ BitVec.ofNat 4 7 ++ BitVec.ofNat 12 (sequence >>> 62)
    ++ BitVec.ofNat 2 2 ++ BitVec.ofNat 62 sequence⟩

/-- The version mark of an id, its thirteenth digit. -/
def version (i : Id) : Nat := (i.bits.extractLsb' 76 4).toNat

end Id

end Guildhall
