-- SUMMARY: What a member may do in a server or a channel, and the decision on a single permission.
import Guildhall.Channel
import Guildhall.Member
import Guildhall.Role
import Guildhall.Sorting

/-!
# Resolution

The permissions of a member follow from their records alone.

* In a direct message, recipients get a fixed list and all others nothing.
* The owner of the server gets everything.
* All others get what the default role grants, and what each role they hold grants. If the
  administrator permission is among that, they get everything.
* In a channel the overrides come on top: those about the default role, then those about
  each held role from the lowest ranked to the highest, then those about the member.

Resolution never fails. Where records do not fit together it grants nothing.
-/

namespace Guildhall

/-! ## Roles that count -/

/-- The default role, provided it is one and belongs to the member's server. -/
def Member.usableEveryone (m : Member) (everyone : Option Role) : Option Role :=
  everyone.filter fun r => r.isDefault && r.server == m.server

/-- Whether a role is assigned to the member and counts besides the default role. -/
def Member.heldBeside (m : Member) (everyone : Role) (r : Role) : Bool :=
  r.server == m.server && r.id != everyone.id && !r.isDefault && m.holds r.id

/-- The roles that count besides the default role, the lowest ranked first, each id once. -/
def Member.heldRoles (m : Member) (roles : List Role) (everyone : Role) : List Role :=
  (sortBy Role.rankLe (roles.filter (m.heldBeside everyone))).eraseRepsBy (·.id == ·.id)

/-- What the default role and the held roles grant together. -/
def basePermissions (everyone : Role) (held : List Role) : PermissionSet :=
  held.foldl (fun s r => s ∪ r.permissions) everyone.permissions

/-! ## Overrides -/

/-- Applies the overrides about one target, in the order of the list. -/
def applyLayer (overrides : List Override) (s : PermissionSet) (t : Target) : PermissionSet :=
  (overrides.filter (·.target == t)).foldl (fun s o => o.apply s) s

/-- Whose overrides apply to the member, in the order in which they apply. -/
def Member.layers (m : Member) (everyone : Role) (held : List Role) : List Target :=
  .role everyone.id :: held.map (fun r => .role r.id) ++ [.member m.user]

/-- Applies all overrides that concern the member. -/
def Member.applyOverrides (m : Member) (everyone : Role) (held : List Role)
    (overrides : List Override) (base : PermissionSet) : PermissionSet :=
  (m.layers everyone held).foldl (applyLayer overrides) base

/-! ## Permission sets -/

/-- What a user may do in a direct message. -/
def resolveDm (user : Id) (c : Channel) : PermissionSet :=
  if c.isDm && c.isRecipient user then .dm else ∅

/-- What a member who is not in a direct message may do, in the server or in a channel of it. -/
def Member.resolveInServer (m : Member) (roles : List Role) (everyone : Option Role)
    (overrides : Option (List Override)) : PermissionSet :=
  if m.isOwner then .full
  else
    match m.usableEveryone everyone with
    | none => ∅
    | some everyone =>
      let held := m.heldRoles roles everyone
      let base := basePermissions everyone held
      if base.isAdmin then .full
      else
        match overrides with
        | none => base
        | some overrides => m.applyOverrides everyone held overrides base

/-- What a member may do, in the server as a whole or in one channel. The list should hold
every role of the member's server; roles of other servers are ignored. -/
def Member.resolve (m : Member) (roles : List Role) (everyone : Option Role)
    (channel : Option Channel) : PermissionSet :=
  match channel with
  | none => m.resolveInServer roles everyone none
  | some c =>
    if c.isDm then resolveDm m.user c
    else if c.server = some m.server then m.resolveInServer roles everyone (some c.overrides)
    else ∅

/-! ## Decisions -/

/-- Why a permission is not granted. -/
inductive Denial where
  /-- The resolved set lacks the permission. -/
  | missingPermission (permission : Permission)
  /-- The server has no usable default role. -/
  | misconfigured
  /-- The user takes no part in the direct message. -/
  | notRecipient
  /-- No direct message grants the permission. -/
  | notAllowedInDm (permission : Permission)
  /-- The channel is not one of the member's server. -/
  | channelOutsideServer
  deriving DecidableEq, Repr

inductive Decision where
  | allowed
  | denied (why : Denial)
  deriving DecidableEq, Repr

def Decision.isAllowed : Decision → Bool
  | allowed => true
  | denied _ => false

/-- Decides on a permission in a direct message. -/
def authorizeDm (p : Permission) (user : Id) (c : Channel) : Decision :=
  if !c.isRecipient user then .denied .notRecipient
  else if (resolveDm user c).contains p then .allowed
  else .denied (.notAllowedInDm p)

/-- Decides on a permission, in the server as a whole or in one channel. -/
def Member.authorize (m : Member) (p : Permission) (roles : List Role) (everyone : Option Role)
    (channel : Option Channel) : Decision :=
  let inServer : Decision :=
    if m.isOwner then .allowed
    else if (m.usableEveryone everyone).isNone then .denied .misconfigured
    else if (m.resolve roles everyone channel).grants p then .allowed
    else .denied (.missingPermission p)
  match channel with
  | none => inServer
  | some c =>
    if c.isDm then authorizeDm p m.user c
    else if c.server = some m.server then inServer
    else .denied .channelOutsideServer

end Guildhall
