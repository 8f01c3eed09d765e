-- SUMMARY: HTTP requests and responses as values.
import Guildhall.Json.Text

/-!
# HTTP messages

A request is its method, its target, its headers and its body as text; a response is a
status, headers and a body. Header names match whatever their case.

Bodies of bytes that spell no text in UTF-8 are left out. Where the service reads a body, it refuses
these too, but for one case: it does not decode the strings in fields that it passes over, so any
bytes may stand there.
-/

namespace Guildhall.Http

structure Request where
  method : String
  /-- The path, and a query behind a question mark. -/
  target : String
  headers : List (String × String)
  body : String
  deriving DecidableEq

/-- The first header of a name. -/
def Request.header? (r : Request) (name : String) : Option String :=
  (r.headers.find? fun h => h.1.toLower == name.toLower).map Prod.snd

/-- The path of the target, as it is spelled. -/
def Request.path (r : Request) : List Char :=
  r.target.toList.takeWhile fun c => c != '?' && c != '#'

inductive Body where
  | empty
  | json (value : Json)
  | text (content : String)
  deriving DecidableEq

/-- The characters that are sent. -/
def Body.content : Body → String
  | .empty => ""
  | .json value => value.render
  | .text content => content

/-- What kind of content the body is. -/
def Body.mediaType? : Body → Option String
  | .empty => none
  | .json _ => some "application/json"
  | .text _ => some "text/plain; charset=utf-8"

structure Response where
  status : Nat
  headers : List (String × String)
  body : Body
  deriving DecidableEq

/-- The values of all headers of a name. -/
def Response.headerValues (r : Response) (name : String) : List String :=
  (r.headers.filter fun h => h.1.toLower == name.toLower).map Prod.snd

/-- A response with the headers that describe its body. -/
def Response.ofBody (status : Nat) (body : Body) : Response where
  status
  headers :=
    (body.mediaType?.toList.map fun kind => ("content-type", kind))
      ++ [("content-length", toString body.content.utf8ByteSize)]
  body

/-- The response with more headers. -/
def Response.withHeaders (r : Response) (headers : List (String × String)) : Response :=
  { r with headers := r.headers ++ headers }

end Guildhall.Http
