-- SUMMARY: A caller's standing in a server, a channel or a direct message, loaded from the store, and what it permits.
import Guildhall.Resolution
import Guildhall.Store.Basic

/-!
# Access

Before anything is done for a caller, their records are loaded into an `Access`: the member
and the roles of the server, the channel, or both. `Access.require` asks it for a permission
and `Access.effective` for all permissions at once. A server without exactly one default role
is misconfigured: nobody but its owner gets an answer other than that.
-/

namespace Guildhall

/-- The records about one member of one server. -/
structure ServerRecords where
  member : Member
  /-- Every role of the server. -/
  roles : List Role
  /-- The default role, if there is exactly one. -/
  everyone : Option Role
  /-- Why there is no default role. -/
  misconfiguration : Option String
  deriving DecidableEq

namespace ServerRecords

def noDefault : String := "@everyone role not found"

def severalDefaults : String := "multiple @everyone roles"

/-- Finds the default role among the roles of the member's server. -/
def ofRoles (member : Member) (roles : List Role) : ServerRecords :=
  match roles.filter Role.isDefault with
  | [everyone] => ⟨member, roles, some everyone, none⟩
  | [] => ⟨member, roles, none, some noDefault⟩
  | _ => ⟨member, roles, none, some severalDefaults⟩

def server (r : ServerRecords) : Id := r.member.server

def findRole (r : ServerRecords) (role : Id) : Option Role := r.roles.find? (·.id == role)

/-- What the member may do, in the server as a whole or in a channel. -/
def resolve (r : ServerRecords) (channel : Option Channel) : PermissionSet :=
  r.member.resolve r.roles r.everyone channel

/-- The refusal that a misconfigured server answers with. -/
def misconfigured (r : ServerRecords) : Refusal :=
  .misconfigured r.server (r.misconfiguration.getD noDefault)

end ServerRecords

/-- Where a caller acts. -/
inductive Scope where
  | server (records : ServerRecords)
  | channel (channel : Channel) (records : ServerRecords)
  | dm (channel : Channel)
  deriving DecidableEq

structure Access where
  user : Id
  scope : Scope
  deriving DecidableEq

namespace Access

def records? (a : Access) : Option ServerRecords :=
  match a.scope with
  | .server r | .channel _ r => some r
  | .dm _ => none

def channel? (a : Access) : Option Channel :=
  match a.scope with
  | .server _ => none
  | .channel c _ | .dm c => some c

def isOwner (a : Access) : Bool := a.records?.any (·.member.isOwner)

/-- The records, where a server is needed. -/
def serverRecords (a : Access) : Except Refusal ServerRecords :=
  match a.records? with
  | some r => .ok r
  | none => .error (.badRequest "This action requires a server context")

/-! ## Decisions -/

/-- Decides on a permission. -/
def decide (a : Access) (p : Permission) : Decision :=
  match a.scope with
  | .dm c => authorizeDm p a.user c
  | .server r => r.member.authorize p r.roles r.everyone none
  | .channel c r => r.member.authorize p r.roles r.everyone (some c)

def misconfigured (a : Access) : Refusal :=
  match a.records? with
  | some r => r.misconfigured
  | none => .badRequest "Direct messages have no server configuration"

/-- The refusal that a denial is answered with. -/
def refusal (a : Access) : Denial → Refusal
  | .missingPermission p | .notAllowedInDm p => .permissionDenied p
  | .notRecipient => .notAMember
  | .channelOutsideServer => .channelOutsideServer
  | .misconfigured => a.misconfigured

/-- Requires a permission, or with `none` only that the caller belongs here. -/
def require (a : Access) : Option Permission → Except Refusal Unit
  | none => .ok ()
  | some p =>
    match a.decide p with
    | .allowed => .ok ()
    | .denied why => .error (a.refusal why)

/-- All permissions of the caller here. A member of a server without a default role gets no
empty set but the reason. -/
def effective (a : Access) : Except Refusal PermissionSet :=
  let inServer (r : ServerRecords) : Except Refusal PermissionSet :=
    if !r.member.isOwner && r.everyone.isNone then .error a.misconfigured
    else .ok (r.resolve a.channel?)
  match a.scope with
  | .dm c => .ok (resolveDm a.user c)
  | .server r | .channel _ r => inServer r

end Access

/-! ## Loading -/

namespace Store

/-- The records about a user in a server, if they are a member. -/
def loadRecords (s : Store) (server user : Id) : Except Refusal ServerRecords :=
  match s.findMember server user with
  | none => .error .notAMember
  | some m => .ok (.ofRoles m (s.serverRoles server))

/-- The standing of a user in a server. -/
def loadServerAccess (s : Store) (user server : Id) : Except Refusal Access := do
  let records ← s.loadRecords server user
  return ⟨user, .server records⟩

/-- The standing of a user in a channel, which must belong to the route's server if the route
names one. Of a direct message only the recipients learn more than that it exists. -/
def loadChannelAccess (s : Store) (user channel : Id) (routeServer : Option Id) :
    Except Refusal Access :=
  match s.findChannel channel with
  | none => .error .channelNotFound
  | some c =>
    if c.isDm then
      if routeServer.isSome then
        .error (.badRequest "Direct message channels do not belong to a server")
      else if !c.isRecipient user then .error .notAMember
      else .ok ⟨user, .dm c⟩
    else
      match c.server with
      | none => .error (.badRequest "Channel is not attached to a server")
      | some server =>
        if routeServer.any (· != server) then .error .channelOutsideServer
        else do
          let records ← s.loadRecords server user
          return ⟨user, .channel c records⟩

end Store

end Guildhall
