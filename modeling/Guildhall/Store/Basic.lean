-- SUMMARY: The record store: its look-ups, and the writes that change it as one step or not at all.
import Guildhall.Channel
import Guildhall.Member
import Guildhall.Refusal
import Guildhall.Role
import Guildhall.Sorting
import Guildhall.Store.Table

/-!
# The record store

The store holds all roles, members and channels. Roles and channels are kept by id, members
by server and user. A `Write` is one of the changes that the service makes; `Store.commit`
either makes it as a whole, with all that follows from it elsewhere, or refuses it and leaves
everything as it was.
-/

namespace Guildhall

instance : Keyed Role Id := ⟨Role.id⟩

instance : Keyed Member (Id × Id) := ⟨fun m => (m.server, m.user)⟩

instance : Keyed Channel Id := ⟨Channel.id⟩

structure Store where
  roles : Table Role
  members : Table Member
  channels : Table Channel
  deriving DecidableEq

namespace Store

/-- The store without records. -/
def empty : Store := ⟨∅, ∅, ∅⟩

instance : EmptyCollection Store := ⟨empty⟩
instance : Inhabited Store := ⟨empty⟩

def insertRole (s : Store) (r : Role) : Store := { s with roles := s.roles.insert r }

def insertMember (s : Store) (m : Member) : Store := { s with members := s.members.insert m }

def insertChannel (s : Store) (c : Channel) : Store := { s with channels := s.channels.insert c }

/-- The store of listed records, later ones taking the place of earlier ones with their key. -/
def ofLists (roles : List Role) (members : List Member) (channels : List Channel) : Store :=
  ⟨.ofList roles, .ofList members, .ofList channels⟩

/-! ## Look-ups -/

def findChannel (s : Store) (id : Id) : Option Channel := s.channels.get? id

def findMember (s : Store) (server user : Id) : Option Member := s.members.get? (server, user)

/-- The owner of a server. Of several it is the one that was put in first, where the service may come
upon any of them. -/
def findOwner (s : Store) (server : Id) : Option Member :=
  s.members.toList.find? fun m => m.server == server && m.isOwner

/-- The role of an id, if it belongs to the server. -/
def findRole (s : Store) (server id : Id) : Option Role :=
  (s.roles.get? id).filter (·.server == server)

/-- The roles of a server, the highest ranked first. -/
def serverRoles (s : Store) (server : Id) : List Role :=
  sortBy (fun r q => q.rankLe r) (s.roles.toList.filter (·.server == server))

/-- How many roles, members and channels there are. -/
def counts (s : Store) : Nat × Nat × Nat := (s.roles.size, s.members.size, s.channels.size)

/-! ## Consequences -/

/-- Takes a role away from all members of a server. -/
def unassignAll (s : Store) (server role : Id) : Store :=
  { s with
    members := s.members.map (fun m => if m.server = server then m.unassign role else m)
      (fun m => by simp only [key]; split <;> rfl) }

/-- Drops the overrides about a target from all channels of a server. -/
def pruneOverrides (s : Store) (server : Id) (t : Target) : Store :=
  { s with
    channels := s.channels.map (fun c => if c.server = some server then c.prune t else c)
      (fun c => by simp only [key]; split <;> rfl) }

/-! ## Writes -/

end Store

/-- A change to the store. -/
inductive Write where
  | createRole (role : Role)
  | updateRole (server role : Id) (patch : RolePatch)
  /-- Moves a role that is still at the expected position. -/
  | moveRole (server role : Id) (expected position : Int32)
  /-- Deletes a role, takes it away from everybody and drops the overrides about it. -/
  | deleteRole (server role : Id)
  | assignRole (server user role : Id)
  | unassignRole (server user role : Id)
  /-- Removes a member and drops the overrides about them. -/
  | removeMember (server user : Id)
  | replaceOverrides (channel : Id) (overrides : List Override)
  deriving DecidableEq

/-- The record that a write leaves behind. -/
inductive Receipt where
  | role (role : Role)
  | member (member : Member)
  | channel (channel : Channel)
  | nothing
  deriving DecidableEq

namespace Store

/-- Adds a role. Ids are unique, and so is the default role of a server. -/
def createRole (s : Store) (r : Role) : Except Refusal (Receipt × Store) :=
  if (s.roles.get? r.id).isSome then
    .error (.conflict ("Role " ++ r.id.text ++ " already exists"))
  else if r.isDefault && s.roles.toList.any (fun q => q.server == r.server && q.isDefault) then
    .error (.conflict "Server already has an @everyone role")
  else .ok (.role r, s.insertRole r)

def updateRole (s : Store) (server role : Id) (patch : RolePatch) :
    Except Refusal (Receipt × Store) :=
  match s.findRole server role with
  | none => .error .roleNotFound
  | some r => .ok (.role (r.patch patch), s.insertRole (r.patch patch))

def moveRole (s : Store) (server role : Id) (expected position : Int32) :
    Except Refusal (Receipt × Store) :=
  match s.findRole server role with
  | none => .error .roleNotFound
  | some r =>
    if r.position ≠ expected then
      .error (.conflict ("Role position changed (expected " ++ toString expected.toInt
        ++ ", found " ++ toString r.position.toInt ++ ")"))
    else
      let moved := { r with position }
      .ok (.role moved, s.insertRole moved)

def deleteRole (s : Store) (server role : Id) : Except Refusal (Receipt × Store) :=
  match s.findRole server role with
  | none => .error .roleNotFound
  | some r =>
    if r.isDefault then .error .everyoneUndeletable
    else
      let rest := { s with roles := s.roles.erase role }
      .ok (.nothing, (rest.unassignAll server role).pruneOverrides server (.role role))

def assignRole (s : Store) (server user role : Id) : Except Refusal (Receipt × Store) :=
  match s.findRole server role with
  | none => .error .roleNotFound
  | some r =>
    if r.isDefault then .error .everyoneHeldImplicitly
    else
      match s.findMember server user with
      | none => .error .memberNotFound
      | some m => .ok (.member (m.assign role), s.insertMember (m.assign role))

def unassignRole (s : Store) (server user role : Id) : Except Refusal (Receipt × Store) :=
  match s.findMember server user with
  | none => .error .memberNotFound
  | some m => .ok (.member (m.unassign role), s.insertMember (m.unassign role))

def removeMember (s : Store) (server user : Id) : Except Refusal (Receipt × Store) :=
  match s.findMember server user with
  | none => .error .memberNotFound
  | some _ =>
    let rest := { s with members := s.members.erase (server, user) }
    .ok (.nothing, rest.pruneOverrides server (.member user))

def replaceOverrides (s : Store) (channel : Id) (overrides : List Override) :
    Except Refusal (Receipt × Store) :=
  match s.findChannel channel with
  | none => .error .channelNotFound
  | some c => .ok (.channel { c with overrides }, s.insertChannel { c with overrides })

/-- Makes a change, or refuses it. -/
def commit (s : Store) : Write → Except Refusal (Receipt × Store)
  | .createRole r => s.createRole r
  | .updateRole server role patch => s.updateRole server role patch
  | .moveRole server role expected position => s.moveRole server role expected position
  | .deleteRole server role => s.deleteRole server role
  | .assignRole server user role => s.assignRole server user role
  | .unassignRole server user role => s.unassignRole server user role
  | .removeMember server user => s.removeMember server user
  | .replaceOverrides channel overrides => s.replaceOverrides channel overrides

/-- The store after a write; a refused write leaves it as it was. -/
def afterWrite (s : Store) (w : Write) : Store :=
  match s.commit w with
  | .ok (_, s) => s
  | .error _ => s

/-- The store after a history of writes, refused ones included. -/
def afterWrites (s : Store) (ws : List Write) : Store := ws.foldl afterWrite s

end Store

end Guildhall
