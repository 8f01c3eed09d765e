-- SUMMARY: Internet addresses and their spelling.

/-!
# Addresses

An address is four octets, written in decimal with points, or eight groups of sixteen bits,
written in hexadecimal with colons. Of the groups one run of zeros can be left out, and the last
two can be written as four octets.
-/

namespace Guildhall.Http

inductive Address where
  | octets (values : List Nat)
  | groups (values : List Nat)
  deriving DecidableEq, Repr

namespace Address

def digitValue? (base : Nat) (c : Char) : Option Nat :=
  let n :=
    if c.isDigit then c.toNat - 48
    else if 'a' ≤ c.toLower && c.toLower ≤ 'f' then c.toLower.toNat - 87
    else base
  if n < base then some n else none

/-- A number of at most so many digits, and what follows it. -/
def readNumber? (base count : Nat) (cs : List Char) : Option (List Char × Nat × List Char) :=
  let digits := cs.takeWhile fun c => (digitValue? base c).isSome
  if digits = [] ∨ count < digits.length then none
  else
    let n := (digits.filterMap (digitValue? base)).foldl (fun n d => base * n + d) 0
    some (digits, n, cs.dropWhile fun c => (digitValue? base c).isSome)

/-- An octet: at most 255, and without leading zeros. -/
def readOctet? (cs : List Char) : Option (Nat × List Char) := do
  let (digits, n, rest) ← readNumber? 10 3 cs
  if 255 < n ∨ (digits.head? = some '0' ∧ digits ≠ ['0']) then none else some (n, rest)

/-- So many octets, each behind a point. -/
def readMoreOctets? : Nat → List Char → Option (List Nat × List Char)
  | 0, cs => some ([], cs)
  | count + 1, '.' :: cs => do
    let (n, rest) ← readOctet? cs
    let (ns, rest) ← readMoreOctets? count rest
    return (n :: ns, rest)
  | _, _ => none

/-- Four octets. -/
def readOctets? (cs : List Char) : Option (List Nat × List Char) := do
  let (n, rest) ← readOctet? cs
  let (ns, rest) ← readMoreOctets? 3 rest
  return (n :: ns, rest)

/-- The two groups that four octets are. -/
def pairs : List Nat → List Nat
  | a :: b :: rest => (256 * a + b) :: pairs rest
  | _ => []

/-- Groups at the front of a text, at most so many: the groups, whether the last two were written
as octets, and what follows. All but the very first stand behind a colon. -/
def readGroups (first : Bool) : Nat → List Char → List Nat × Bool × List Char
  | 0, cs => ([], false, cs)
  | count + 1, cs =>
    let body? : Option (List Char) :=
      if first then some cs
      else match cs with
        | ':' :: rest => some rest
        | _ => none
    match body? with
    | none => ([], false, cs)
    | some body =>
      match (if count = 0 then none else readOctets? body) with
      | some (values, rest) => (pairs values, true, rest)
      | none =>
        match readNumber? 16 4 body with
        | some (_, n, rest) =>
          let (ns, asOctets, rest) := readGroups false count rest
          (n :: ns, asOctets, rest)
        | none => ([], false, cs)

/-- Eight groups, or fewer with two colons for the zeros that are left out. -/
def readAllGroups? (cs : List Char) : Option (List Nat × List Char) :=
  match readGroups true 8 cs with
  | (front, asOctets, rest) =>
    if front.length = 8 then some (front, rest)
    else if asOctets then none
    else
      match rest with
      | ':' :: ':' :: rest =>
        let (back, _, rest) := readGroups true (8 - (front.length + 1)) rest
        some (front ++ List.replicate (8 - front.length - back.length) 0 ++ back, rest)
      | _ => none

/-- The address that a text spells. -/
def ofString? (s : String) : Option Address :=
  match readOctets? s.toList with
  | some (values, []) => some (.octets values)
  | some _ => none
  | none =>
    match readAllGroups? s.toList with
    | some (values, []) => some (.groups values)
    | _ => none

end Address

end Guildhall.Http
