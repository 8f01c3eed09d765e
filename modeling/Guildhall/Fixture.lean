-- SUMMARY: Seed files for the store: their JSON form, the checks they must pass and the store they describe.
import Guildhall.Store.Basic
import Guildhall.Wire

/-!
# Fixtures

A fixture lists the records that a store starts with. Its roles must have distinct ids and
each server at most one default role and one owner; members may only hold roles of their
server, and exactly the direct messages are without a server. A server without a default
role is let through: nobody but its owner can do anything there.
-/

namespace Guildhall

structure Fixture where
  roles : List Role
  members : List Member
  channels : List Channel
  deriving DecidableEq

/-- What can be wrong with a fixture. -/
inductive FixtureError where
  /-- The text does not spell a fixture. -/
  | unreadable
  | duplicateRole (role : Id)
  | severalDefaults (server : Id)
  | severalOwners (server : Id)
  | foreignRole (user role server : Id)
  | misplacedChannel (channel : Id)
  deriving DecidableEq

def FixtureError.message : FixtureError → String
  | unreadable => "invalid fixture JSON"
  | duplicateRole role => "duplicate role id " ++ role.text
  | severalDefaults server => "server " ++ server.text ++ " has more than one @everyone role"
  | severalOwners server => "server " ++ server.text ++ " has more than one owner"
  | foreignRole user role server =>
    "member " ++ user.text ++ " holds role " ++ role.text ++ " outside server " ++ server.text
  | misplacedChannel channel =>
    "channel " ++ channel.text ++ " must have a server id unless it is a DM"

namespace Fixture

def layout : Json.Layout [List Role, List Member, List Channel] :=
  .cons (.defaulted "roles" Role.codec) <|
  .cons (.defaulted "members" Member.codec) <|
  .cons (.defaulted "channels" Channel.codec) .nil

def codec : Json.Codec Fixture :=
  layout.codec (fun (roles, members, channels, ()) => { roles, members, channels })
    (fun f => (f.roles, f.members, f.channels, ()))

/-- Checks the roles in order; `ids` and `servers` are the ids and the servers with a default
role that were met before. -/
def checkRoles (ids servers : List Id) : List Role → Except FixtureError Unit
  | [] => .ok ()
  | r :: rs =>
    if ids.contains r.id then .error (.duplicateRole r.id)
    else if r.isDefault && servers.contains r.server then .error (.severalDefaults r.server)
    else checkRoles (r.id :: ids) (if r.isDefault then r.server :: servers else servers) rs

/-- Whether the role is listed and belongs to the server. -/
def hasRole (roles : List Role) (server role : Id) : Bool :=
  roles.any fun r => r.id == role && r.server == server

/-- Checks the members in order; `servers` are the servers with an owner met before. -/
def checkMembers (roles : List Role) (servers : List Id) : List Member → Except FixtureError Unit
  | [] => .ok ()
  | m :: ms =>
    if m.isOwner && servers.contains m.server then .error (.severalOwners m.server)
    else
      match m.roles.find? (fun role => !hasRole roles m.server role) with
      | some role => .error (.foreignRole m.user role m.server)
      | none => checkMembers roles (if m.isOwner then m.server :: servers else servers) ms

/-- Checks that exactly the direct messages are without a server. -/
def checkChannels (channels : List Channel) : Except FixtureError Unit :=
  match channels.find? (fun c => c.isDm != c.server.isNone) with
  | some c => .error (.misplacedChannel c.id)
  | none => .ok ()

def check (f : Fixture) : Except FixtureError Unit := do
  checkRoles [] [] f.roles
  checkMembers f.roles [] f.members
  checkChannels f.channels

/-- Reads a fixture from text and checks it. -/
def ofText (text : String) : Except FixtureError Fixture := do
  match codec.readText text with
  | .error _ => throw .unreadable
  | .ok f =>
    f.check
    return f

/-- The store that starts with the records of the fixture. -/
def store (f : Fixture) : Store := .ofLists f.roles f.members f.channels

end Fixture

end Guildhall
