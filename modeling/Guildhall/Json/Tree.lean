-- SUMMARY: JSON values as far as a text spells them, the two ways reading can fail, and which parts of a value are sound.

/-!
# JSON values

A `Json` is what reading a text from left to right has found. A text that goes wrong somewhere
still has a value up to that place: the value holds a broken part there and nothing after it.
So whoever reads the value in the same order meets the faults in the order of the text.

Strings are kept as `Option String`: escapes can name half of a surrogate pair, which no text
holds, and such a string is only in order where nobody looks at it. Numbers that are written
as plain integers are kept as integers, all others by their spelling.
-/

namespace Guildhall

mutual

inductive Json where
  | null
  | bool (value : Bool)
  /-- A number written without a fraction and an exponent, and not as `-0`. -/
  | integer (value : Int)
  /-- Any other number, as it is spelled. -/
  | decimal (lexeme : String)
  /-- A string, or `none` where its escapes leave half of a surrogate pair alone. -/
  | string (text : Option String)
  | array (items : Json.Items)
  | object (fields : Json.Fields)
  /-- The text goes wrong where a value should be. -/
  | broken

/-- The elements of an array and how it ends. -/
inductive Json.Items where
  | closed
  /-- The text goes wrong before the array is closed. -/
  | broken
  | cons (head : Json) (tail : Json.Items)

/-- The fields of an object and how it ends. -/
inductive Json.Fields where
  | closed
  /-- The text goes wrong before the object is closed. -/
  | broken
  /-- A value other than a string stands where the first key should be. -/
  | stray
  | cons (key : Option String) (value : Json) (rest : Json.Fields)

end

namespace Json

deriving instance DecidableEq, Inhabited for Json, Items, Fields

/-- What can be wrong with a text that should spell a value of some kind. -/
inductive Fault where
  /-- The text breaks the rules of JSON, or a number is beyond all floating-point numbers. -/
  | malformed
  /-- The text is in order but spells another kind of value. -/
  | mismatched
  deriving DecidableEq, Repr

/-! ## Lists -/

/-- The elements of a list, closed. -/
def Items.ofList : List Json → Items
  | [] => .closed
  | j :: js => .cons j (ofList js)

/-- The elements that were read. -/
def Items.toList : Items → List Json
  | .closed => []
  | .broken => []
  | .cons j js => j :: js.toList

/-- The fields of a list, closed. -/
def Fields.ofList : List (String × Json) → Fields
  | [] => .closed
  | (k, j) :: fs => .cons (some k) j (ofList fs)

/-- The array of a list. -/
def ofItems (js : List Json) : Json := .array (Items.ofList js)

/-- The object of a list of fields. -/
def ofFields (fs : List (String × Json)) : Json := .object (Fields.ofList fs)

/-- A string of plain text. -/
def text (s : String) : Json := .string (some s)

@[simp] theorem Items.toList_ofList (js : List Json) : (Items.ofList js).toList = js := by
  induction js with
  | nil => rfl
  | cons j js ih => simp [ofList, toList, ih]

/-! ## Soundness -/

mutual

/-- Whether the text that spells the value is in order. -/
def intact : Json → Bool
  | .array items => items.intact
  | .object fields => fields.intact
  | .broken => false
  | .null | .bool _ | .integer _ | .decimal _ | .string _ => true

def Items.intact : Items → Bool
  | .closed => true
  | .broken => false
  | .cons j js => j.intact && js.intact

def Fields.intact : Fields → Bool
  | .closed => true
  | .broken | .stray => false
  | .cons _ j fs => j.intact && fs.intact

end

end Json

end Guildhall
