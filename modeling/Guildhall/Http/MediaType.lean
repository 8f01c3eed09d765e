-- SUMMARY: Media types as content-type headers spell them, and which of them mean JSON.

/-!
# Media types

A media type is a type, a slash, a subtype and parameters behind semicolons; the last semicolon
needs no parameter behind it. A plus sign in the subtype, other than at its start, begins a
suffix. JSON is `application/json` and `application/*+json`, in any case and with any parameters.
-/

namespace Guildhall.Http

structure MediaType where
  main : List Char
  /-- The subtype before its last plus sign. -/
  sub : List Char
  suffix : Option (List Char)
  deriving DecidableEq

namespace MediaType

/-- The characters that names consist of. -/
def isNameChar (c : Char) : Bool :=
  c.isAlphanum || "!#$%&'*+-.^_|~".toList.contains c || c == '\x60'

/-- The characters that a quoted value may hold besides backslashes and quotes. -/
def isQuotedChar (c : Char) : Bool := (0x20 ≤ c.toNat && c.toNat < 0x7F) || c == '\t'

/-- Cuts a name off; `none` if there is none. -/
def name? (cs : List Char) : Option (List Char × List Char) :=
  match cs.takeWhile isNameChar with
  | [] => none
  | name => some (name, cs.dropWhile isNameChar)

/-- What follows a quoted value behind its opening quote; `none` if it is never closed. -/
def afterQuoted? : List Char → Option (List Char)
  | [] => none
  | '"' :: cs => some cs
  | '\\' :: c :: cs => if isQuotedChar c then afterQuoted? cs else none
  | c :: cs => if isQuotedChar c && c != '\\' then afterQuoted? cs else none

/-- What follows the value of a parameter. Only at the end of the text it can be left out. -/
def afterValue? : List Char → Option (List Char)
  | [] => some []
  | '"' :: cs => (afterQuoted? cs).map (·.dropWhile (· == ' '))
  | cs => (name? cs).map Prod.snd

/-- Whether the text is a list of parameters, each behind a semicolon; `count` bounds them. -/
def areParameters : Nat → List Char → Bool
  | _, [] => true
  | 0, _ => false
  | count + 1, ';' :: cs =>
    match cs.dropWhile (· == ' ') with
    | [] => true
    | cs =>
      match name? cs with
      | some (_, '=' :: cs) =>
        match afterValue? cs with
        | some rest => areParameters count rest
        | none => false
      | _ => false
  | _ + 1, _ => false

/-- Splits a subtype at its last plus sign. -/
def splitSuffix (cs : List Char) : List Char × Option (List Char) :=
  let suffix := (cs.reverse.takeWhile (· != '+')).reverse
  let sub := cs.take (cs.length - suffix.length - 1)
  if suffix.length < cs.length ∧ sub ≠ [] then (sub, some suffix) else (cs, none)

/-- Reads a media type; `none` if the text is none. -/
def ofChars? (cs : List Char) : Option MediaType :=
  match name? cs with
  | some (main, '/' :: cs) =>
    match name? cs with
    | some (subtype, rest) =>
      if areParameters rest.length rest then
        let (sub, suffix) := splitSuffix subtype
        some ⟨main, sub, suffix⟩
      else none
    | none => none
  | _ => none

/-- Whether the media type means JSON. -/
def isJson (m : MediaType) : Bool :=
  let json := "json".toList
  m.main.map Char.toLower == "application".toList
    && (m.sub.map Char.toLower == json || m.suffix.any fun s => s.map Char.toLower == json)

end MediaType

/-- Whether a content-type header announces JSON. -/
def announcesJson (header : String) : Bool := (MediaType.ofChars? header.toList).any (·.isJson)

end Guildhall.Http
