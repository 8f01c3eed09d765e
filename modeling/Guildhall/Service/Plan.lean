-- SUMMARY: What each action does once its caller is let in: the checks it makes and the write it decides on.
import Guildhall.Http.MediaType
import Guildhall.Limits
import Guildhall.OverrideList
import Guildhall.Rank
import Guildhall.RoleRequest
import Guildhall.Service.Gate
import Guildhall.Wire

/-!
# Plans

An action does not touch the store. It looks at the caller's standing, at the request and at
the store, and decides on a `Plan`: an answer, or a write with which the store is changed.
Non-owners only manage roles and members below their own rank, and only hand out permissions
that they have; nobody can take the management of a channel away from themselves.
-/

namespace Guildhall

/-- The outcome of an action's checks. -/
inductive Plan where
  | answer (body : Json)
  | commit (write : Write)
  deriving DecidableEq

/-! ## Reading requests -/

/-- The greatest number of bytes in a body. -/
def bodyLimit : Nat := 2 * 1024 * 1024

/-- Reads the JSON body of a request. -/
def readBody (c : Json.Codec α) (r : Http.Request) : Except Rejection α :=
  if !(r.header? "content-type").any (fun h => isPlainText h && Http.announcesJson h) then
    .error .notJson
  else if r.body.utf8ByteSize > bodyLimit then .error .bodyTooLarge
  else (c.readText r.body).mapError .unreadableBody

/-- Reads an id of the path. -/
def readPathId (ps : Http.Parameters) (name : String) : Except Rejection Id :=
  match (Http.parameter? ps name).bind Id.ofString? with
  | some id => .ok id
  | none => .error .unreadablePath

/-! ## Roles -/

/-- The position above all roles. -/
def nextPosition (roles : List Role) : Int32 :=
  match roles.map Role.position with
  | [] => 0 + 1
  | p :: ps => ps.foldl max p + 1

/-- The role to be managed. -/
def ServerRecords.targetRole (r : ServerRecords) (role : Id) : Except Refusal Role :=
  match r.findRole role with
  | some target => .ok target
  | none => .error .roleNotFound

/-- Checks a new role. Its name is stored without white space at its ends. -/
def planCreate (limits : Limits) (a : Access) (fresh : Id) (d : RoleDraft) :
    Except Refusal Write := do
  d.checkFields
  checkRoleName d.name
  let records ← a.serverRecords
  if (records.roles.filter (!·.isDefault)).length ≥ limits.rolesPerServer then
    throw (.limitReached
      ("A server can have at most " ++ toString limits.rolesPerServer ++ " roles"))
  let permissions := PermissionSet.ofList d.permissions
  checkEscalation (← a.effective) records.member.isOwner permissions
  let position := d.position.getD (nextPosition records.roles)
  records.member.checkOutranksRole records.roles position
  return .createRole
    { id := fresh, server := records.server, name := trim d.name, color := d.color, position,
      permissions, isDefault := false }

/-- Checks a new name for a role. -/
def checkRename (target : Role) (name : Option String) : Except Refusal Unit :=
  match name with
  | none => .ok ()
  | some name =>
    if target.isDefault then .error (.badRequest "The @everyone role cannot be renamed")
    else checkRoleName name

/-- Checks new permissions for a role; only those it gains count as handed out. -/
def checkRegrant (a : Access) (records : ServerRecords) (target : Role)
    (permissions : Option PermissionSet) : Except Refusal Unit :=
  match permissions with
  | none => .ok ()
  | some permissions => do
    checkEscalation (← a.effective) records.member.isOwner (permissions \ target.permissions)

/-- Checks a change of a role. -/
def planUpdate (a : Access) (role : Id) (e : RoleEdit) : Except Refusal Write := do
  e.checkFields
  let records ← a.serverRecords
  let target ← records.targetRole role
  records.member.checkOutranksRole records.roles target.position
  checkRename target e.name
  let permissions := e.permissions.map PermissionSet.ofList
  checkRegrant a records target permissions
  return .updateRole records.server role
    { name := e.name.map trim, color := e.color, permissions }

/-- Checks a move of a role: both its places must be below the caller. -/
def planMove (a : Access) (role : Id) (m : RoleMove) : Except Refusal Write := do
  m.checkFields
  let records ← a.serverRecords
  let target ← records.targetRole role
  if target.isDefault then
    throw (.badRequest "The @everyone role always stays at the bottom")
  records.member.checkOutranksRole records.roles target.position
  records.member.checkOutranksRole records.roles m.position
  return .moveRole records.server role m.expected m.position

/-- Checks the deletion of a role. -/
def planDelete (a : Access) (role : Id) : Except Refusal Write := do
  let records ← a.serverRecords
  let target ← records.targetRole role
  if target.isDefault then throw .everyoneUndeletable
  records.member.checkOutranksRole records.roles target.position
  return .deleteRole records.server role

/-! ## Members -/

/-- The member to be managed, as the store has them now. -/
def targetMember (s : Store) (server user : Id) : Except Refusal Member :=
  match s.findMember server user with
  | some m => .ok m
  | none => .error .memberNotFound

/-- Checks that the caller may assign a role to a member or take it away: they must outrank
both. Owners may do it to themselves. -/
def checkAssignable (s : Store) (records : ServerRecords) (user role : Id) :
    Except Refusal Unit := do
  let target ← targetMember s records.server user
  if !records.member.isOwner then
    records.member.checkOutranksMember target records.roles
  let r ← records.targetRole role
  if r.isDefault then throw .everyoneHeldImplicitly
  records.member.checkOutranksRole records.roles r.position

def planAssign (a : Access) (s : Store) (user role : Id) : Except Refusal Write := do
  let records ← a.serverRecords
  checkAssignable s records user role
  return .assignRole records.server user role

def planUnassign (a : Access) (s : Store) (user role : Id) : Except Refusal Write := do
  let records ← a.serverRecords
  checkAssignable s records user role
  return .unassignRole records.server user role

/-- Checks the removal of a member. -/
def planRemove (a : Access) (s : Store) (user : Id) : Except Refusal Write := do
  let records ← a.serverRecords
  let target ← targetMember s records.server user
  records.member.checkOutranksMember target records.roles
  return .removeMember records.server user

/-! ## Overrides -/

/-- The rules for the overrides of a channel of the server. -/
def ServerRecords.overrideRules (records : ServerRecords) (limits : Limits) (s : Store) :
    OverrideRules where
  owner := (s.findOwner records.server).map Member.user
  everyone := records.everyone.map Role.id
  roles := records.roles.map Role.id
  limit := limits.overridesPerChannel

/-- Checks new overrides for a channel, the last check being that the caller could still
manage the channel with them. -/
def planOverrides (limits : Limits) (a : Access) (s : Store) (ds : List OverrideDraft) :
    Except Refusal Write :=
  match a.scope with
  | .server _ | .dm _ =>
    .error (.badRequest "Overrides can only be set on server channels")
  | .channel c records => do
    let overrides ← (records.overrideRules limits s).normalize ds
    if !(records.resolve (some { c with overrides })).grants .manageChannel then
      throw (.forbidden
        "This change would remove your own MANAGE_CHANNEL permission on this channel")
    return .replaceOverrides c.id overrides

/-! ## Answers without a write -/

/-- The caller's permissions here. -/
def answerPermissions (a : Access) : Except Refusal Json := do
  let permissions ← a.effective
  return Json.ofFields
    [("server_id", Id.codec.nullable.write (a.records?.map ServerRecords.server)),
     ("channel_id", Id.codec.nullable.write (a.channel?.map Channel.id)),
     ("is_owner", .bool a.isOwner),
     ("permissions", PermissionSet.codec.write permissions)]

/-- The overrides of the channel. -/
def answerOverrides (a : Access) : Json :=
  Override.codec.list.write ((a.channel?.map Channel.overrides).getD [])

/-- The roles of the server, the highest ranked first. -/
def answerRoles (a : Access) : Except Refusal Json := do
  let records ← a.serverRecords
  return Role.codec.list.write records.roles

/-! ## Actions -/

/-- Turns a decided write into a plan. -/
def committing (w : Except Refusal Write) : Except Rejection Plan := refusing (w.map .commit)

/-- Decides what an action does. The ids of the path are read first, then the body. -/
def Action.plan (action : Action) (limits : Limits) (a : Access) (ps : Http.Parameters)
    (r : Http.Request) (fresh : Id) (s : Store) : Except Rejection Plan :=
  match action with
  | .showPermissions => refusing ((answerPermissions a).map .answer)
  | .listOverrides => .ok (.answer (answerOverrides a))
  | .listRoles => refusing ((answerRoles a).map .answer)
  | .replaceOverrides => do
    let drafts ← readBody OverrideDraft.listCodec r
    committing (planOverrides limits a s drafts)
  | .createRole => do
    let draft ← readBody RoleDraft.codec r
    committing (planCreate limits a fresh draft)
  | .updateRole => do
    let role ← readPathId ps "role_id"
    let edit ← readBody RoleEdit.codec r
    committing (planUpdate a role edit)
  | .moveRole => do
    let role ← readPathId ps "role_id"
    let move ← readBody RoleMove.codec r
    committing (planMove a role move)
  | .deleteRole => do
    let role ← readPathId ps "role_id"
    committing (planDelete a role)
  | .assignRole => do
    let user ← readPathId ps "user_id"
    let role ← readPathId ps "role_id"
    committing (planAssign a s user role)
  | .unassignRole => do
    let user ← readPathId ps "user_id"
    let role ← readPathId ps "role_id"
    committing (planUnassign a s user role)
  | .removeMember => do
    let user ← readPathId ps "user_id"
    committing (planRemove a s user)

end Guildhall
