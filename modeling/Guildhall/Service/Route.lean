-- SUMMARY: The endpoints of the service, the actions that methods select there, and the permission that each action needs.
import Guildhall.Http.Path
import Guildhall.Permission

/-!
# Routes

Every endpoint is a path pattern below `/api/v1` with a list of methods. All endpoints but the
health check are guarded: a method selects an action, and the action says which permission the
caller needs, in the server or in the channel that the path names.
-/

namespace Guildhall

open Http (Segment)

/-- What a guarded request asks for. -/
inductive Action where
  | showPermissions
  | listOverrides
  | replaceOverrides
  | listRoles
  | createRole
  | updateRole
  | deleteRole
  | moveRole
  | assignRole
  | unassignRole
  | removeMember
  deriving DecidableEq, Repr

/-- The permission that the caller needs; `none` if belonging there is enough. -/
def Action.permission : Action → Option Permission
  | .showPermissions | .listRoles => none
  | .listOverrides => some .viewChannel
  | .replaceOverrides => some .manageChannel
  | .createRole | .updateRole | .deleteRole | .moveRole | .assignRole | .unassignRole =>
    some .manageRoles
  | .removeMember => some .kickMembers

/-- What the path of a guarded endpoint names. -/
inductive ScopeKind where
  | server
  | channel
  deriving DecidableEq, Repr

inductive Endpoint where
  | health
  | serverPermissions
  | channelPermissions
  | channelOverrides
  /-- The overrides of a channel, with its server in the path. -/
  | serverChannelOverrides
  | roles
  | role
  | rolePosition
  | memberRole
  | member
  deriving DecidableEq, Repr

namespace Endpoint

def all : List Endpoint :=
  [health, serverPermissions, channelPermissions, channelOverrides, serverChannelOverrides,
   roles, role, rolePosition, memberRole, member]

def inServer (rest : List Segment) : List Segment :=
  .fixed "servers" :: .parameter "server_id" :: rest

def inChannel (rest : List Segment) : List Segment :=
  .fixed "channels" :: .parameter "channel_id" :: rest

/-- The path pattern, behind the common prefix. -/
def segments : Endpoint → List Segment
  | health => [.fixed "health"]
  | serverPermissions => inServer [.fixed "permissions", .fixed "me"]
  | channelPermissions => inChannel [.fixed "permissions", .fixed "me"]
  | channelOverrides => inChannel [.fixed "overrides"]
  | serverChannelOverrides => inServer (inChannel [.fixed "overrides"])
  | roles => inServer [.fixed "roles"]
  | role => inServer [.fixed "roles", .parameter "role_id"]
  | rolePosition => inServer [.fixed "roles", .parameter "role_id", .fixed "position"]
  | memberRole =>
    inServer [.fixed "members", .parameter "user_id", .fixed "roles", .parameter "role_id"]
  | member => inServer [.fixed "members", .parameter "user_id"]

/-- The whole path pattern. -/
def pattern (e : Endpoint) : List Segment := .fixed "api" :: .fixed "v1" :: e.segments

/-- The endpoint of a path, with the parameters as they are spelled. -/
def find? (path : List Char) : Option (Endpoint × Http.Parameters) :=
  all.findSome? fun e => (Http.matchPath e.pattern path).map (e, ·)

/-- What the path names. -/
def scopeKind : Endpoint → ScopeKind
  | channelPermissions | channelOverrides | serverChannelOverrides => .channel
  | health | serverPermissions | roles | role | rolePosition | memberRole | member => .server

/-- The methods of the guarded endpoints with their actions. -/
def actions : Endpoint → List (String × Action)
  | health => []
  | serverPermissions | channelPermissions => [("GET", .showPermissions)]
  | channelOverrides | serverChannelOverrides =>
    [("GET", .listOverrides), ("PUT", .replaceOverrides)]
  | roles => [("GET", .listRoles), ("POST", .createRole)]
  | role => [("PATCH", .updateRole), ("DELETE", .deleteRole)]
  | rolePosition => [("PUT", .moveRole)]
  | memberRole => [("PUT", .assignRole), ("DELETE", .unassignRole)]
  | member => [("DELETE", .removeMember)]

/-- The method that a request is handled as: `HEAD` asks for what `GET` answers, less the body. -/
def handledAs (method : String) : String := if method = "HEAD" then "GET" else method

/-- The action that a method selects. -/
def action? (e : Endpoint) (method : String) : Option Action :=
  (e.actions.find? (·.1 == handledAs method)).map Prod.snd

/-- The methods that the endpoint answers to. -/
def methods (e : Endpoint) : List String :=
  let listed := if e = health then ["GET"] else e.actions.map Prod.fst
  listed.flatMap fun m => if m = "GET" then ["GET", "HEAD"] else [m]

end Endpoint

end Guildhall
