-- SUMMARY: Why an operation is refused, with the status, the code and the message that each cause is answered with.
import Guildhall.Id
import Guildhall.Permission

/-!
# Refusals

Every operation that can fail does so with a `Refusal`. Causes are never merged: lacking a
permission, not being a member and belonging to a server whose records are broken each keep
a code of their own. `Refusal.message` tells the cause in full, `Refusal.publicMessage` what
a client is told: nothing about faults inside the service.
-/

namespace Guildhall

inductive Refusal where
  /-- No usable credentials came with the request. -/
  | authenticationRequired
  /-- The token that came with the request is not valid. -/
  | invalidToken
  | notAMember
  | permissionDenied (permission : Permission)
  /-- A rule of rank, escalation or self-protection forbids it. -/
  | forbidden (message : String)
  /-- The server does not have exactly one default role. -/
  | misconfigured (server : Id) (reason : String)
  | channelNotFound
  | notFound (resource : String)
  | conflict (message : String)
  | badRequest (message : String)
  /-- The values of a request break a rule. -/
  | invalid (message : String)
  | limitReached (message : String)
  /-- The storage behind the service failed. -/
  | storage (detail : String)
  /-- Anything else inside the service failed. -/
  | internal (detail : String)
  deriving DecidableEq, Repr

namespace Refusal

/-- The status of the answer. -/
def status : Refusal → Nat
  | authenticationRequired | invalidToken => 401
  | notAMember | permissionDenied _ | forbidden _ | limitReached _ => 403
  | channelNotFound | notFound _ => 404
  | conflict _ => 409
  | misconfigured _ _ | badRequest _ | invalid _ => 400
  | storage _ | internal _ => 500

/-- The code that clients tell the causes apart by. -/
def code : Refusal → String
  | authenticationRequired => "AUTHENTICATION_REQUIRED"
  | invalidToken => "INVALID_TOKEN"
  | notAMember => "NOT_A_MEMBER"
  | permissionDenied _ => "PERMISSION_DENIED"
  | forbidden _ => "FORBIDDEN"
  | misconfigured _ _ => "SERVER_MISCONFIGURED"
  | channelNotFound => "CHANNEL_NOT_FOUND"
  | notFound _ => "NOT_FOUND"
  | conflict _ => "CONFLICT"
  | badRequest _ => "BAD_REQUEST"
  | invalid _ => "VALIDATION_ERROR"
  | limitReached _ => "LIMIT_REACHED"
  | storage _ => "DATABASE_ERROR"
  | internal _ => "INTERNAL_ERROR"

/-- The cause in words. -/
def message : Refusal → String
  | authenticationRequired => "Authentication required"
  | invalidToken => "Invalid token"
  | notAMember => "You are not a member of this server"
  | permissionDenied p => "Missing permission: " ++ p.name
  | forbidden m => m
  | misconfigured _ reason => "Server configuration error: " ++ reason
  | channelNotFound => "Channel not found"
  | notFound resource => resource ++ " not found"
  | conflict m => m
  | badRequest m => m
  | invalid m => "Validation failed: " ++ m
  | limitReached m => "Limit reached: " ++ m
  | storage detail => "Database error: " ++ detail
  | internal detail => "Internal error: " ++ detail

/-- The cause as clients see it. -/
def publicMessage (r : Refusal) : String :=
  match r with
  | storage _ | internal _ => "An internal error occurred"
  | r => r.message

/-- A storage lookup that found no record where one must be. -/
def recordMissing : Refusal :=
  .storage "no rows returned by a query that expected to return at least one row"

/-- No role of that id belongs to the server. -/
def roleNotFound : Refusal := .notFound "Role"

/-- No member of that user is in the server. -/
def memberNotFound : Refusal := .notFound "Member"

/-- The default role cannot be assigned or taken away. -/
def everyoneHeldImplicitly : Refusal := .badRequest "The @everyone role is held implicitly"

/-- The default role cannot be deleted. -/
def everyoneUndeletable : Refusal := .badRequest "The @everyone role cannot be deleted"

/-- The channel is not one of the server that was named or assumed. -/
def channelOutsideServer : Refusal := .badRequest "Channel does not belong to this server"

end Refusal

end Guildhall
