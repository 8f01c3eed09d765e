-- SUMMARY: How values of a type are spelled in JSON: codecs for scalars, names, lists and records, with the first fault met.
import Guildhall.Json.Text

/-!
# JSON codecs

A `Codec α` reads values of a type from JSON and writes them. Reading stops at the first
fault in the order of the text.

Records are described by a `Layout`, the list of their fields. A record may be spelled as an
object, its fields in any order, or as an array of its fields in the order of the layout.
Fields of an object that the layout does not know are skipped, as long as their text is in
order; a field that occurs twice is refused before its second value is looked at.
-/

namespace Guildhall.Json

structure Codec (α : Type) where
  read : Json → Except Fault α
  write : α → Json

namespace Codec

/-- Reads a whole text; nothing but blanks may follow the value. -/
def readDocument (c : Codec α) (d : Document) : Except Fault α := do
  let a ← c.read d.value
  if d.trailing then throw .malformed
  return a

/-- Reads a value of a type from a text. -/
def readText (c : Codec α) (s : String) : Except Fault α := c.readDocument (Document.ofString s)

/-- Writes a value of a type as text. -/
def writeText (c : Codec α) (a : α) : String := (c.write a).render

/-! ## Scalars -/

def bool : Codec Bool where
  read
    | .bool b => .ok b
    | j => .error j.unexpected
  write := .bool

def string : Codec String where
  read
    | .string (some s) => .ok s
    | j => .error j.unexpected
  write := Json.text

/-- Integers from `low` to `high`. -/
def integer (low high : Int) : Codec Int where
  read
    | .integer i => if low ≤ i ∧ i ≤ high then .ok i else .error (Json.integer i).unexpected
    | j => .error j.unexpected
  write := .integer

/-- The codec of a type that is another one in disguise. -/
def map (c : Codec α) (wrap : α → β) (unwrap : β → α) : Codec β where
  read j := (c.read j).map wrap
  write b := c.write (unwrap b)

def int32 : Codec Int32 :=
  (integer Int32.minValue.toInt Int32.maxValue.toInt).map Int32.ofInt Int32.toInt

/-- Values spelled by a string with a grammar of its own. -/
def spelled (ofString? : String → Option α) (text : α → String) : Codec α where
  read j := do
    let s ← string.read j
    match ofString? s with
    | some a => return a
    | none => throw .mismatched
  write a := Json.text (text a)

/-- A value that may be absent, spelled `null`. -/
def nullable (c : Codec α) : Codec (Option α) where
  read
    | .null => .ok none
    | j => (c.read j).map some
  write
    | none => .null
    | some a => c.write a

/-! ## Names -/

/-- Reads one of a closed set of names. An object with the name as its only key and `null`
behind it is read like the name. Where neither a string nor an object stands, the text counts
as malformed. -/
def readName (ofName? : String → Option α) : Json → Except Fault α
  | .string (some s) =>
    match ofName? s with
    | some a => .ok a
    | none => .error .mismatched
  | .object (.cons (some s) j rest) =>
    match ofName? s, j, rest with
    | none, _, _ => .error .mismatched
    | some a, .null, .closed => .ok a
    | some _, .null, _ => .error .malformed
    | some _, j, _ => .error j.unexpected
  | .object .stray => .error .mismatched
  | _ => .error .malformed

/-- A closed set of named values. -/
def named (ofName? : String → Option α) (name : α → String) : Codec α where
  read := readName ofName?
  write a := Json.text (name a)

/-! ## Lists -/

/-- Reads the elements in order. -/
def readItems (c : Codec α) : Items → Except Fault (List α)
  | .closed => .ok []
  | .broken => .error .malformed
  | .cons j js => do
    let a ← c.read j
    let as ← readItems c js
    return a :: as

def list (c : Codec α) : Codec (List α) where
  read
    | .array items => c.readItems items
    | j => .error j.unexpected
  write as := Json.ofItems (as.map c.write)

end Codec

/-! ## Records -/

/-- What becomes of a record without one of its fields. -/
inductive Absence (α : Type) where
  /-- It is refused. -/
  | refused
  /-- An object gets the value; an array is refused. -/
  | inObjects (value : α)
  /-- The value is filled in. -/
  | filled (value : α)

/-- The value of a field that an object lacks. -/
def Absence.inObject? : Absence α → Option α
  | .refused => none
  | .inObjects a | .filled a => some a

/-- The value of a field that an array is too short for. -/
def Absence.inArray? : Absence α → Option α
  | .refused | .inObjects _ => none
  | .filled a => some a

/-- A field of a record. -/
structure Slot (α : Type) where
  name : String
  codec : Codec α
  absence : Absence α

/-- A field that must be there. -/
def Slot.needed (name : String) (codec : Codec α) : Slot α := ⟨name, codec, .refused⟩

/-- A field that may be `null` or, in objects, missing. -/
def Slot.optional (name : String) (codec : Codec α) : Slot (Option α) :=
  ⟨name, codec.nullable, .inObjects none⟩

/-- A list that may be missing and is empty then. -/
def Slot.defaulted (name : String) (codec : Codec α) : Slot (List α) :=
  ⟨name, codec.list, .filled []⟩

/-- The fields of a record, in order. -/
inductive Layout : List Type → Type 1 where
  | nil : Layout []
  | cons {α : Type} {αs : List Type} (slot : Slot α) (rest : Layout αs) : Layout (α :: αs)

/-- The values of all fields. -/
@[reducible] def Row : List Type → Type
  | [] => Unit
  | α :: αs => α × Row αs

/-- The values of the fields met so far. -/
@[reducible] def Draft : List Type → Type
  | [] => Unit
  | α :: αs => Option α × Draft αs

namespace Layout

/-- No field met yet. -/
def blank : Layout αs → Draft αs
  | .nil => ()
  | .cons _ rest => (none, rest.blank)

/-- Meets a field: `none` if the layout does not know its key. -/
def put : Layout αs → String → Json → Draft αs → Option (Except Fault (Draft αs))
  | .nil, _, _, _ => none
  | .cons slot rest, key, j, (d, ds) =>
    if key = slot.name then
      match d with
      | some _ => some (.error .mismatched)
      | none => some ((slot.codec.read j).map fun a => (some a, ds))
    else (rest.put key j ds).map (·.map (d, ·))

/-- The row at the end of an object: missing fields are filled in or refused. -/
def finish : Layout αs → Draft αs → Except Fault (Row αs)
  | .nil, _ => .ok ()
  | .cons slot rest, (d, ds) =>
    match d.or slot.absence.inObject? with
    | some a => (rest.finish ds).map (a, ·)
    | none => .error .mismatched

/-- Reads the fields of an object. -/
def readFields (layout : Layout αs) : Fields → Draft αs → Except Fault (Row αs)
  | .closed, d => layout.finish d
  | .broken, _ | .stray, _ | .cons none _ _, _ => .error .malformed
  | .cons (some key) j fields, d =>
    match layout.put key j d with
    | some (.ok d) => layout.readFields fields d
    | some (.error fault) => .error fault
    | none => if j.intact then layout.readFields fields d else .error .malformed

/-- Reads the fields of an array. -/
def readItems : Layout αs → Items → Except Fault (Row αs)
  | .nil, .closed => .ok ()
  | .nil, _ => .error .malformed
  | .cons _ _, .broken => .error .malformed
  | .cons slot rest, .closed =>
    match slot.absence.inArray? with
    | some a => (rest.readItems .closed).map (a, ·)
    | none => .error .mismatched
  | .cons slot rest, .cons j js =>
    match slot.codec.read j with
    | .ok a => (rest.readItems js).map (a, ·)
    | .error fault => .error fault

/-- Reads a record from an object or an array. -/
def read (layout : Layout αs) : Json → Except Fault (Row αs)
  | .object fields => layout.readFields fields layout.blank
  | .array items => layout.readItems items
  | j => .error j.unexpected

/-- The fields of a row with their names. -/
def write : Layout αs → Row αs → List (String × Json)
  | .nil, _ => []
  | .cons slot rest, (a, as) => (slot.name, slot.codec.write a) :: rest.write as

/-- The codec of a type whose values are rows. -/
def codec (layout : Layout αs) (ofRow : Row αs → β) (toRow : β → Row αs) : Codec β where
  read j := (layout.read j).map ofRow
  write b := Json.ofFields (layout.write (toRow b))

end Layout

end Guildhall.Json
