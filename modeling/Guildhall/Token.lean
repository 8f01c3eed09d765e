-- SUMMARY: Access tokens: the claims they carry, how they are issued and signed, and every check they must pass.
import Guildhall.Base64
import Guildhall.Digest.Hmac
import Guildhall.Id
import Guildhall.Json.Codec
import Guildhall.Utf8

/-!
# Access tokens

A token is three segments of base-64 with dots between them: a header, the claims and the
signature of the two under a shared secret. `Token.issue` makes one for a user;
`Token.validate` checks one at a moment, segment by segment, and returns its claims. A token
stays valid for a minute after it has expired, to allow for clocks that disagree.
-/

namespace Guildhall

/-- What a token says. -/
structure Claims where
  /-- The user, in some spelling of their id. -/
  subject : String
  /-- When it was issued, in seconds. -/
  issuedAt : Int
  /-- When it expires, in seconds. -/
  expiresAt : Int
  tokenType : String
  deriving DecidableEq

namespace Claims

def seconds : Json.Codec Int := .integer Int64.minValue.toInt Int64.maxValue.toInt

def layout : Json.Layout [String, Int, Int, String] :=
  .cons (.needed "sub" .string) <|
  .cons (.needed "iat" seconds) <|
  .cons (.needed "exp" seconds) <|
  .cons (.needed "token_type" .string) .nil

def codec : Json.Codec Claims :=
  layout.codec
    (fun (subject, issuedAt, expiresAt, tokenType, ()) =>
      { subject, issuedAt, expiresAt, tokenType })
    (fun c => (c.subject, c.issuedAt, c.expiresAt, c.tokenType, ()))

/-- The user that the claims are about. -/
def user? (c : Claims) : Option Id := Id.ofString? c.subject

end Claims

/-- What can be wrong with a token, in the order in which it is checked. -/
inductive TokenError where
  /-- There are fewer than three segments. -/
  | invalidToken
  /-- A segment is not base-64. -/
  | base64
  /-- A segment does not spell what it should in JSON. -/
  | json
  /-- The header names another way to sign. -/
  | invalidAlgorithm
  | invalidSignature
  | missingClaim (name : String)
  | expired
  /-- The token is meant for an audience, and nobody here is one. -/
  | invalidAudience
  deriving DecidableEq, Repr

namespace Token

/-! ## Headers -/

/-- The known ways to sign a token. -/
inductive Algorithm where
  | hs256 | hs384 | hs512
  | es256 | es384
  | rs256 | rs384 | rs512
  | ps256 | ps384 | ps512
  | edDsa
  deriving DecidableEq, Repr

def Algorithm.all : List Algorithm :=
  [.hs256, .hs384, .hs512, .es256, .es384, .rs256, .rs384, .rs512, .ps256, .ps384, .ps512, .edDsa]

def Algorithm.name : Algorithm → String
  | .hs256 => "HS256"
  | .hs384 => "HS384"
  | .hs512 => "HS512"
  | .es256 => "ES256"
  | .es384 => "ES384"
  | .rs256 => "RS256"
  | .rs384 => "RS384"
  | .rs512 => "RS512"
  | .ps256 => "PS256"
  | .ps384 => "PS384"
  | .ps512 => "PS512"
  | .edDsa => "EdDSA"

def Algorithm.ofName? (name : String) : Option Algorithm :=
  Algorithm.all.find? (·.name == name)

/-- A key that comes with a header. It is never used, and any object passes for one. The service is
stricter: it refuses a header whose key lacks the parameters of one, such as the empty object. This
only matters for tokens that are signed with the secret; others are not valid either way. -/
def embeddedKey : Json.Codec Json where
  read
    | .object fields => if fields.intact then .ok (.object fields) else .error .malformed
    | j => .error j.unexpected
  write j := j

/-- What a header may hold. All but the algorithm is only looked at for its form. -/
def headerLayout : Json.Layout [Option String, Algorithm, Option String, Option String,
    Option Json, Option String, Option String, Option (List String), Option String,
    Option String] :=
  .cons (.optional "typ" .string) <|
  .cons (.needed "alg" (.named Algorithm.ofName? Algorithm.name)) <|
  .cons (.optional "cty" .string) <|
  .cons (.optional "jku" .string) <|
  .cons (.optional "jwk" embeddedKey) <|
  .cons (.optional "kid" .string) <|
  .cons (.optional "x5u" .string) <|
  .cons (.optional "x5c" (.list .string)) <|
  .cons (.optional "x5t" .string) <|
  .cons (.optional "x5t#S256" .string) .nil

/-- The header of every token that is issued. -/
def header : Json := Json.ofFields [("typ", .text "JWT"), ("alg", .text Algorithm.hs256.name)]

/-! ## Segments -/

/-- A JSON value as a segment. -/
def segment (j : Json) : List Char := Base64.encode (Utf8.encode j.render)

/-- The text that bytes spell. Where bytes spell no character an escape stands that no string
can be read with. -/
def textOf (bytes : List UInt8) : List Char :=
  (Utf8.pieces bytes).flatMap fun
    | some c => [c]
    | none => ['\\', 'u', 'd', 'f', 'f', 'f']

/-- The JSON text in a segment. -/
def document? (cs : List Char) : Except TokenError Json.Document :=
  match Base64.decode? cs with
  | none => .error .base64
  | some bytes => .ok (.ofChars (textOf bytes))

/-- Cuts a text at its last dot; `none` without one. -/
def splitLast? (cs : List Char) : Option (List Char × List Char) :=
  let tail := (cs.reverse.takeWhile (· != '.')).reverse
  if tail.length < cs.length then some (cs.take (cs.length - tail.length - 1), tail) else none

/-- The signature of a text under a secret, as a segment. -/
def signature (secret : String) (message : List Char) : List Char :=
  Base64.encode (Hmac.sign (Utf8.encode secret) (Utf8.encode (String.ofList message)))

/-! ## Issuing -/

/-- The greatest number of whole seconds whose milliseconds fit into 64 bits. -/
def longestLifetime : Int := Int64.maxValue.toInt / 1000

/-- The first and the last second of the calendar, in the years -262143 and 262142. -/
def calendar : Int × Int := (-8334601228800, 8210266876799)

/-- When a token issued at a moment expires. The lifetime counts as a signed number of 64 bits;
`none` if it is too long or leads out of the calendar. -/
def expiry? (now : Int) (lifetime : Nat) : Option Int :=
  let signed := Int.bmod lifetime UInt64.size
  if signed.natAbs ≤ longestLifetime ∧ calendar.1 ≤ now + signed ∧ now + signed ≤ calendar.2 then
    some (now + signed)
  else none

/-- The claims with a signature. -/
def sign (secret : String) (c : Claims) : String :=
  let message := segment header ++ '.' :: segment (Claims.codec.write c)
  String.ofList (message ++ '.' :: signature secret message)

/-- The type of the tokens that let requests in. -/
def accessType : String := "access"

/-- A token for a user; `none` if its lifetime is out of bounds. -/
def issue (user : Id) (secret : String) (now : Int) (lifetime : Nat) : Option String :=
  (expiry? now lifetime).map fun expiresAt =>
    sign secret
      { subject := user.text, issuedAt := now, expiresAt, tokenType := accessType }

/-! ## Validating -/

/-- How long a token is valid after it has expired, in seconds. -/
def leeway : Int := 60

/-- The claims with a meaning that every token shares; none may occur twice. -/
def registered : List String := ["exp", "nbf", "sub", "iss", "aud"]

/-- The values of a claim, in order. -/
def claimValues (name : String) : Json.Fields → List Json
  | .cons k j fields =>
    if k = some name then j :: claimValues name fields else claimValues name fields
  | _ => []

mutual

/-- Whether a value could be kept: its strings are texts and its numbers within bounds. -/
def keepable : Json → Bool
  | .string none => false
  | .array items => keepableItems items
  | .object fields => keepableFields fields
  | j => !j.overflows

def keepableItems : Json.Items → Bool
  | .cons j js => keepable j && keepableItems js
  | _ => true

def keepableFields : Json.Fields → Bool
  | .cons k j fs => k.isSome && keepable j && keepableFields fs
  | _ => true

end

/-- Whether a claim that nobody uses can be passed over although a number is expected: lists
and objects only if they are empty. -/
def passableNumber : Json → Bool
  | .string none => false
  | .array items => items = .closed
  | .object fields => fields = .closed
  | _ => true

/-- Whether a claim can be passed over although text or a list of texts is expected. -/
def passableText (j : Json) : Bool := j.overflows || keepable j

/-- Whether the value names audiences: a string, or a list of strings. -/
def isAudience : Json → Bool
  | .string _ => true
  | .array items => items.toList.all fun | .string _ => true | _ => false
  | _ => false

/-- The checks on the claims that every token shares. -/
def checkRegistered (now : Int) (claims : Json) : Except TokenError Unit :=
  match claims with
  | .object fields =>
    if registered.any fun name => (claimValues name fields).length > 1 then .error .json
    else if !(claimValues "nbf" fields).all passableNumber then .error .json
    else if !(claimValues "iss" fields).all passableText then .error .json
    else if !(claimValues "aud" fields).all passableText then .error .json
    else
      match claimValues "exp" fields with
      | [.integer expiresAt] =>
        if expiresAt < 0 then .error (.missingClaim "exp")
        else if expiresAt < now - leeway then .error .expired
        else if (claimValues "aud" fields).any isAudience then .error .invalidAudience
        else .ok ()
      | _ => .error (.missingClaim "exp")
  | _ => .error .json

/-- Reads the algorithm from a header. -/
def algorithm (cs : List Char) : Except TokenError Algorithm := do
  let d ← document? cs
  match (headerLayout.codec id id).readDocument d with
  | .ok (_, algorithm, _) => return algorithm
  | .error _ => throw .json

/-- Reads and checks the claims in a segment. -/
def claims (now : Int) (cs : List Char) : Except TokenError Claims := do
  let d ← document? cs
  match Claims.codec.readDocument d with
  | .ok c =>
    checkRegistered now d.value
    return c
  | .error _ => throw .json

/-- Checks a token at a moment and returns what it says. -/
def validate (token secret : String) (now : Int) : Except TokenError Claims :=
  match splitLast? token.toList with
  | none => .error .invalidToken
  | some (message, given) =>
    match splitLast? message with
    | none => .error .invalidToken
    | some (headerText, claimsText) => do
      if (← algorithm headerText) ≠ .hs256 then throw .invalidAlgorithm
      if given ≠ signature secret message then throw .invalidSignature
      claims now claimsText

end Token

end Guildhall
