-- SUMMARY: Route patterns, the matching of paths against them, and percent-encoding.
import Guildhall.Hex
import Guildhall.Utf8

/-!
# Paths

A route pattern is a list of segments, some fixed and some parameters. Fixed segments match
their exact spelling, a parameter matches any segment, except that the last segment of a path
must not be empty. Only then the values of the parameters are decoded.
-/

namespace Guildhall.Http

/-- A segment of a route pattern. -/
inductive Segment where
  | fixed (text : String)
  | parameter (name : String)
  deriving DecidableEq

/-- The values of parameters with their names, in the order of the path. -/
abbrev Parameters := List (String × String)

/-- The segments of a path behind its leading slash; `none` without one. -/
def segments? : List Char → Option (List String)
  | '/' :: cs => some ((cs.splitOn '/').map String.ofList)
  | _ => none

/-- The pattern that a text spells; parameters stand in braces. -/
def patternOf (s : String) : List Segment :=
  ((segments? s.toList).getD []).map fun segment =>
    match segment.toList with
    | '\x7b' :: cs =>
      if cs.getLast? = some '\x7d' then .parameter (String.ofList cs.dropLast)
      else .fixed segment
    | _ => .fixed segment

/-- Matches segments against a pattern. -/
def matchSegments : List Segment → List String → Option Parameters
  | [], [] => some []
  | .fixed text :: pattern, s :: rest =>
    if text = s then matchSegments pattern rest else none
  | .parameter name :: pattern, s :: rest =>
    if s = "" ∧ rest = [] then none
    else (matchSegments pattern rest).map ((name, s) :: ·)
  | _, _ => none

/-- Matches a path against a pattern; the values are as they are spelled. -/
def matchPath (pattern : List Segment) (path : List Char) : Option Parameters :=
  (segments? path).bind (matchSegments pattern)

/-! ## Percent-encoding -/

/-- The bytes that a segment spells. A percent sign that no two digits follow stands for
itself. -/
def percentBytes : List Char → List UInt8
  | [] => []
  | '%' :: a :: b :: cs =>
    match Hex.number? [a, b] with
    | some n => UInt8.ofNat n :: percentBytes cs
    | none => Utf8.encode "%" ++ percentBytes (a :: b :: cs)
  | c :: cs => Utf8.encode (String.singleton c) ++ percentBytes cs

/-- A segment with its percent-encoding undone; `none` if the bytes are no text. -/
def decodeSegment? (s : String) : Option String :=
  if s.toList.contains '%' then (Utf8.decode? (percentBytes s.toList)).map String.ofList
  else some s

/-- The parameters decoded; `none` if any value is no text. -/
def decodeParameters? (ps : Parameters) : Option Parameters :=
  ps.mapM fun (name, value) => (decodeSegment? value).map (name, ·)

/-- The value of a parameter. -/
def parameter? (ps : Parameters) (name : String) : Option String :=
  (ps.find? (·.1 == name)).map Prod.snd

end Guildhall.Http
