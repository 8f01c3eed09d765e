-- SUMMARY: Channels, the permission overrides they carry, and the overrides that a client submits.
import Guildhall.Id
import Guildhall.PermissionSet

/-!
# Channels

A channel is a text channel of a server or a direct message between its recipients. Overrides
change, within a channel, what a role or a member may do: they take permissions away and then
give permissions back. The administrator permission is out of their reach.
-/

namespace Guildhall

/-- The two kinds of holders an override can be about. -/
inductive TargetKind where
  | role
  | member
  deriving DecidableEq, Repr

def TargetKind.name : TargetKind → String
  | .role => "role"
  | .member => "member"

def TargetKind.ofName? : String → Option TargetKind
  | "role" => some .role
  | "member" => some .member
  | _ => none

/-- Whom an override is about. -/
structure Target where
  kind : TargetKind
  id : Id
  deriving DecidableEq

/-- A role as a target. -/
def Target.role (id : Id) : Target := ⟨.role, id⟩

/-- A member as a target. -/
def Target.member (user : Id) : Target := ⟨.member, user⟩

/-- A target as messages speak of it. -/
def Target.describe (t : Target) : String := t.kind.name ++ " " ++ t.id.text

structure Override where
  target : Target
  allow : PermissionSet
  deny : PermissionSet
  deriving DecidableEq

/-- What overrides can reach: everything but the administrator permission. -/
def Override.reach : PermissionSet := (PermissionSet.singleton .administrator).compl

/-- Takes the denied permissions away, then adds the allowed ones. -/
def Override.apply (o : Override) (s : PermissionSet) : PermissionSet :=
  (s \ (o.deny ∩ reach)) ∪ (o.allow ∩ reach)

/-- An override as a client submits it; a list may repeat a permission. -/
structure OverrideDraft where
  target : Target
  allow : List Permission
  deny : List Permission
  deriving DecidableEq

/-! ## Channels -/

inductive ChannelKind where
  | text
  /-- A direct message. -/
  | dm
  deriving DecidableEq, Repr

def ChannelKind.name : ChannelKind → String
  | .text => "text"
  | .dm => "dm"

def ChannelKind.ofName? : String → Option ChannelKind
  | "text" => some .text
  | "dm" => some .dm
  | _ => none

structure Channel where
  id : Id
  /-- The server of the channel; direct messages have none. -/
  server : Option Id
  kind : ChannelKind
  name : Option String
  /-- Who takes part in a direct message. -/
  recipients : List Id
  overrides : List Override
  deriving DecidableEq

def Channel.isDm (c : Channel) : Bool := c.kind == .dm

def Channel.isRecipient (c : Channel) (user : Id) : Bool := c.recipients.contains user

/-- The channel without the overrides about a target. -/
def Channel.prune (c : Channel) (t : Target) : Channel :=
  { c with overrides := c.overrides.filter (·.target != t) }

end Guildhall
