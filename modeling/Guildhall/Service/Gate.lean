-- SUMMARY: What must hold before a request is acted on: credentials, readable ids, membership and permission.
import Guildhall.Access
import Guildhall.Http.Message
import Guildhall.Http.Path
import Guildhall.Json.Codec
import Guildhall.Service.Route
import Guildhall.Token

/-!
# Gates

A guarded request is let in by two checks. `authenticate` finds out who sent it; `Gate.letIn`
loads the sender's records in the server or the channel that the path names, and requires
the permission that the action needs.
-/

namespace Guildhall

/-- Why a request is not answered with what it asked for. -/
inductive Rejection where
  | refused (why : Refusal)
  /-- A path segment is no text, or not the id that the action needs. -/
  | unreadablePath
  /-- The body is not announced as JSON. -/
  | notJson
  | bodyTooLarge
  | unreadableBody (fault : Json.Fault)
  deriving DecidableEq, Repr

def Rejection.status : Rejection → Nat
  | refused why => why.status
  | unreadablePath => 400
  | notJson => 415
  | bodyTooLarge => 413
  | unreadableBody .malformed => 400
  | unreadableBody .mismatched => 422

/-- Refusals are explained to clients in JSON. -/
def Refusal.body (r : Refusal) : Json :=
  Json.ofFields
    [("code", .integer r.status), ("error", .text r.code), ("message", .text r.publicMessage)]

def Rejection.body : Rejection → Http.Body
  | refused why => .json why.body
  | unreadablePath => .text "Invalid URL"
  | notJson => .text "Expected request with `Content-Type: application/json`"
  | bodyTooLarge => .text "Failed to buffer the request body"
  | unreadableBody .malformed => .text "Failed to parse the request body as JSON"
  | unreadableBody .mismatched =>
    .text "Failed to deserialize the JSON body into the target type"

/-- Turns a refusal into a rejection. -/
def refusing (r : Except Refusal α) : Except Rejection α := r.mapError .refused

/-! ## Credentials -/

/-- Whether a header value is plain text: visible ASCII, blanks and tabs. -/
def isPlainText (s : String) : Bool :=
  s.toList.all fun c => (0x20 ≤ c.toNat && c.toNat < 0x7F) || c == '\t'

/-- What stands before a token in the header that carries it. -/
def bearer : List Char := "Bearer ".toList

/-- The token that comes with a request. -/
def bearerToken? (r : Http.Request) : Option String :=
  match r.header? "authorization" with
  | none => none
  | some value =>
    if isPlainText value && bearer.isPrefixOf value.toList then
      some (String.ofList (value.toList.drop bearer.length))
    else none

/-- The user whom a valid access token names. -/
def tokenUser (token secret : String) (now : Int) : Except Refusal Id :=
  match Token.validate token secret now with
  | .error _ => .error .invalidToken
  | .ok claims =>
    if claims.tokenType ≠ Token.accessType then .error .invalidToken
    else
      match claims.user? with
      | some user => .ok user
      | none => .error .invalidToken

/-- Finds out who sent a request. -/
def authenticate (secret : String) (now : Int) (r : Http.Request) : Except Refusal Id :=
  match bearerToken? r with
  | none => .error .authenticationRequired
  | some token => tokenUser token secret now

/-! ## Gates -/

/-- The id in a parameter, if the path has it. -/
def pathId (ps : Http.Parameters) (name : String) : Except Refusal (Option Id) :=
  match Http.parameter? ps name with
  | none => .ok none
  | some value =>
    match Id.ofString? value with
    | some id => .ok (some id)
    | none => .error (.badRequest ("Invalid " ++ name))

/-- The id in a parameter that the path must have. -/
def neededPathId (ps : Http.Parameters) (name : String) : Except Refusal Id := do
  match ← pathId ps name with
  | some id => return id
  | none => throw (.badRequest ("Missing " ++ name))

structure Gate where
  kind : ScopeKind
  permission : Option Permission
  deriving DecidableEq

namespace Gate

/-- Loads the standing of a user where the path points to. -/
def load (g : Gate) (ps : Http.Parameters) (user : Id) (s : Store) : Except Refusal Access := do
  match g.kind with
  | .server =>
    let server ← neededPathId ps "server_id"
    s.loadServerAccess user server
  | .channel =>
    let channel ← neededPathId ps "channel_id"
    let routeServer ← pathId ps "server_id"
    s.loadChannelAccess user channel routeServer

/-- Lets a user in who has the permission; nobody comes in without being known. The parameters
are decoded. -/
def enter (g : Gate) (ps : Http.Parameters) (user : Option Id) (s : Store) :
    Except Refusal Access :=
  match user with
  | none => .error .authenticationRequired
  | some user => do
    let access ← g.load ps user s
    access.require g.permission
    return access

/-- Decodes the parameters of a path and lets the user in. -/
def letIn (g : Gate) (ps : Http.Parameters) (user : Option Id) (s : Store) :
    Except Rejection (Access × Http.Parameters) :=
  match Http.decodeParameters? ps with
  | none => .error .unreadablePath
  | some decoded => do
    let access ← refusing (g.enter decoded user s)
    return (access, decoded)

end Gate

/-- The gate in front of an action. -/
def Endpoint.gate (e : Endpoint) (a : Action) : Gate := ⟨e.scopeKind, a.permission⟩

end Guildhall
