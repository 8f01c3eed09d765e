-- SUMMARY: The JSON spelling of permission sets, records and requests.
import Guildhall.Channel
import Guildhall.Json.Codec
import Guildhall.Member
import Guildhall.Role

/-!
# Wire formats

One codec for every kind of value that is stored or sent. The order of the fields in a layout
is the order in which they are written, and the order of an array that spells the record.
-/

namespace Guildhall

open Json

def Id.codec : Codec Id := .spelled Id.ofString? Id.text

def Permission.codec : Codec Permission := .named Permission.ofName? Permission.name

/-- A set is spelled as the list of its members in order; any order is read. -/
def PermissionSet.codec : Codec PermissionSet :=
  Permission.codec.list.map PermissionSet.ofList PermissionSet.toList

def ChannelKind.codec : Codec ChannelKind := .named ChannelKind.ofName? ChannelKind.name

def TargetKind.codec : Codec TargetKind := .named TargetKind.ofName? TargetKind.name

/-! ## Records -/

def Role.layout : Layout [Id, Id, String, Option Int32, Int32, PermissionSet, Bool] :=
  .cons (.needed "id" Id.codec) <|
  .cons (.needed "server_id" Id.codec) <|
  .cons (.needed "name" .string) <|
  .cons (.optional "color" .int32) <|
  .cons (.needed "position" .int32) <|
  .cons (.needed "permissions" PermissionSet.codec) <|
  .cons (.needed "is_default" .bool) .nil

def Role.codec : Codec Role :=
  Role.layout.codec
    (fun (id, server, name, color, position, permissions, isDefault, ()) =>
      { id, server, name, color, position, permissions, isDefault })
    (fun r => (r.id, r.server, r.name, r.color, r.position, r.permissions, r.isDefault, ()))

def Member.layout : Layout [Id, Id, List Id, Bool] :=
  .cons (.needed "user_id" Id.codec) <|
  .cons (.needed "server_id" Id.codec) <|
  .cons (.needed "role_ids" Id.codec.list) <|
  .cons (.needed "is_owner" .bool) .nil

def Member.codec : Codec Member :=
  Member.layout.codec
    (fun (user, server, roles, isOwner, ()) => { user, server, roles, isOwner })
    (fun m => (m.user, m.server, m.roles, m.isOwner, ()))

def Override.layout : Layout [TargetKind, Id, PermissionSet, PermissionSet] :=
  .cons (.needed "target_type" TargetKind.codec) <|
  .cons (.needed "target_id" Id.codec) <|
  .cons (.needed "allow" PermissionSet.codec) <|
  .cons (.needed "deny" PermissionSet.codec) .nil

def Override.codec : Codec Override :=
  Override.layout.codec
    (fun (kind, id, allow, deny, ()) => { target := ⟨kind, id⟩, allow, deny })
    (fun o => (o.target.kind, o.target.id, o.allow, o.deny, ()))

def Channel.layout :
    Layout [Id, Option Id, ChannelKind, Option String, List Id, List Override] :=
  .cons (.needed "id" Id.codec) <|
  .cons (.optional "server_id" Id.codec) <|
  .cons (.needed "channel_type" ChannelKind.codec) <|
  .cons (.optional "name" .string) <|
  .cons (.defaulted "recipients" Id.codec) <|
  .cons (.defaulted "permission_overrides" Override.codec) .nil

def Channel.codec : Codec Channel :=
  Channel.layout.codec
    (fun (id, server, kind, name, recipients, overrides, ()) =>
      { id, server, kind, name, recipients, overrides })
    (fun c => (c.id, c.server, c.kind, c.name, c.recipients, c.overrides, ()))

/-! ## Requests -/

def OverrideDraft.layout : Layout [TargetKind, Id, List Permission, List Permission] :=
  .cons (.needed "target_type" TargetKind.codec) <|
  .cons (.needed "target_id" Id.codec) <|
  .cons (.defaulted "allow" Permission.codec) <|
  .cons (.defaulted "deny" Permission.codec) .nil

def OverrideDraft.codec : Codec OverrideDraft :=
  OverrideDraft.layout.codec
    (fun (kind, id, allow, deny, ()) => { target := ⟨kind, id⟩, allow, deny })
    (fun d => (d.target.kind, d.target.id, d.allow, d.deny, ()))

/-- The request that replaces all overrides of a channel. -/
def OverrideDraft.listCodec : Codec (List OverrideDraft) :=
  (Layout.cons (.needed "overrides" OverrideDraft.codec.list) .nil).codec
    (fun (drafts, ()) => drafts) (fun drafts => (drafts, ()))

def RoleDraft.layout : Layout [String, Option Int32, List Permission, Option Int32] :=
  .cons (.needed "name" .string) <|
  .cons (.optional "color" .int32) <|
  .cons (.defaulted "permissions" Permission.codec) <|
  .cons (.optional "position" .int32) .nil

def RoleDraft.codec : Codec RoleDraft :=
  RoleDraft.layout.codec
    (fun (name, color, permissions, position, ()) => { name, color, permissions, position })
    (fun d => (d.name, d.color, d.permissions, d.position, ()))

def RoleEdit.layout : Layout [Option String, Option Int32, Option (List Permission)] :=
  .cons (.optional "name" .string) <|
  .cons (.optional "color" .int32) <|
  .cons (.optional "permissions" Permission.codec.list) .nil

def RoleEdit.codec : Codec RoleEdit :=
  RoleEdit.layout.codec
    (fun (name, color, permissions, ()) => { name, color, permissions })
    (fun e => (e.name, e.color, e.permissions, ()))

def RoleMove.layout : Layout [Int32, Int32] :=
  .cons (.needed "expected_position" .int32) <|
  .cons (.needed "position" .int32) .nil

def RoleMove.codec : Codec RoleMove :=
  RoleMove.layout.codec
    (fun (expected, position, ()) => { expected, position })
    (fun m => (m.expected, m.position, ()))

end Guildhall
