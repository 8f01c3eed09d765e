-- SUMMARY: Setting values as their sources give them, how tables of them are merged, and what they read as.
import Guildhall.Decimal.Reading
import Guildhall.Decimal.Shortest

/-!
# Setting values

Settings come from several sources, each a tree of tables. A later source is merged into the
earlier ones: tables are merged name by name, and any other value takes the place of what was
there. A value is read as what the setting needs: a text setting takes numbers and flags in
their written form, and a count takes flags, rounded numbers and texts that spell a count.
-/

namespace Guildhall.Settings

/-- Where a value was given. -/
inductive Source where
  | file
  | environment
  deriving DecidableEq, Repr

def Source.name : Source → String
  | file => "config.toml"
  | environment => "the environment"

/-- A value without parts. -/
inductive Scalar where
  | flag (value : Bool)
  | integer (value : Int)
  | real (value : Binary64)
  | text (value : String)
  deriving DecidableEq, Repr

mutual

inductive Value where
  /-- A gap in a list. -/
  | gap
  /-- A value without parts, and its source if it is not a default. -/
  | scalar (value : Scalar) (source : Option Source)
  | list (items : List Value)
  | table (entries : Entries)

/-- The entries of a table. -/
inductive Entries where
  | nil
  | cons (name : String) (value : Value) (rest : Entries)

end

instance : Inhabited Value := ⟨.gap⟩

/-! ## Tables -/

def Entries.get? (name : String) : Entries → Option Value
  | nil => none
  | cons n v rest => if n = name then some v else rest.get? name

def Entries.toList : Entries → List (String × Value)
  | nil => []
  | cons n v rest => (n, v) :: rest.toList

/-- Gives a name a value; a new name goes to the end. -/
def Entries.put (name : String) (value : Value) : Entries → Entries
  | nil => cons name value nil
  | cons n v rest => if n = name then cons n value rest else cons n v (rest.put name value)

@[simp] theorem Entries.get?_put_self (name : String) (value : Value) :
    (es : Entries) → (es.put name value).get? name = some value
  | nil => by simp [put, get?]
  | cons n v rest => by
    have ih := get?_put_self name value rest
    simp only [put]
    split <;> simp_all [get?]

theorem Entries.get?_put_of_ne {name other : String} (h : other ≠ name) (value : Value) :
    (es : Entries) → (es.put name value).get? other = es.get? other
  | nil => by simp [put, get?, Ne.symm h]
  | cons n v rest => by
    have ih := get?_put_of_ne h value rest
    simp only [put]
    split
    · subst n; simp [get?, Ne.symm h]
    · simp [get?, ih]

namespace Value

/-- The entries of a table; other values have none. -/
def entries : Value → Entries
  | table es => es
  | _ => .nil

/-- The items of a list; other values have none. -/
def items : Value → List Value
  | list vs => vs
  | _ => []

/-- Gives a name a value; what is not a table becomes one. -/
def put (v : Value) (name : String) (value : Value) : Value :=
  .table (v.entries.put name value)

end Value

mutual

/-- The value after a source has given a new one. -/
def Value.merge : Value → Option Value → Value
  | .table es, old => es.mergeInto (old.getD (.table .nil))
  | v, _ => v

/-- A value after a source has given new entries for it. -/
def Entries.mergeInto : Entries → Value → Value
  | .nil, target => target
  | .cons n v rest, target => rest.mergeInto (target.put n (v.merge (target.entries.get? n)))

end

/-! ## Readings -/

namespace Scalar

/-- What a text setting takes. -/
def asText : Scalar → String
  | flag b => if b then "true" else "false"
  | integer n => toString n
  | real x => x.text
  | text s => s

/-- The greatest number of 64 bits. -/
def maxWord : Nat := UInt64.size - 1

/-- The words that stand for a one or a zero, in any case of letters. -/
def word? (s : String) : Option Nat :=
  let s := String.ofList (s.toList.map Char.toLower)
  if s = "true" ∨ s = "on" ∨ s = "yes" then some 1
  else if s = "false" ∨ s = "off" ∨ s = "no" then some 0
  else none

/-- What a count takes: a natural number of 64 bits, if the value is one or can be rounded to
one. -/
def asCount? : Scalar → Option Nat
  | flag b => some b.toNat
  | integer n => if 0 ≤ n then some n.toNat else none
  | real x => some (x.toNat maxWord)
  | text s => (word? s).orElse fun () => natural? maxWord s.toList

/-- Text in the environment is a flag, a whole number or a number if it spells one. -/
def ofText (s : String) : Scalar :=
  let lower := String.ofList (s.toList.map Char.toLower)
  if lower = "true" then .flag true
  else if lower = "false" then .flag false
  else
    match integer64? s.toList with
    | some n => .integer n
    | none =>
      match Binary64.ofChars? s.toList with
      | some x => .real x
      | none => .text s

end Scalar

end Guildhall.Settings
