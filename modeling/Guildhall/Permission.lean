-- SUMMARY: The eighteen permissions a member can be granted, with their names and their place in the order.

/-!
# Permissions

The closed set of actions that roles and channel overrides talk about. The order of the
constructors is the order in which permissions are listed everywhere; `Permission.index`
is the place in it and `Permission.all` the whole list.
-/

namespace Guildhall

inductive Permission where
  /-- Every permission, everywhere. -/
  | administrator
  | manageServer
  | manageChannel
  | manageRoles
  /-- Delete or pin the messages of other members. -/
  | manageMessages
  | manageWebhooks
  /-- Change the nicknames of other members. -/
  | manageNicknames
  | createInstantInvite
  /-- Change one's own nickname. -/
  | changeNickname
  | kickMembers
  | banMembers
  | viewChannel
  | sendMessages
  | embedLinks
  | attachFiles
  | addReactions
  | mentionEveryone
  | readMessageHistory
  deriving DecidableEq, Repr

/-- Every permission, in order. -/
def Permission.all : List Permission :=
  [.administrator, .manageServer, .manageChannel, .manageRoles, .manageMessages,
   .manageWebhooks, .manageNicknames, .createInstantInvite, .changeNickname, .kickMembers,
   .banMembers, .viewChannel, .sendMessages, .embedLinks, .attachFiles, .addReactions,
   .mentionEveryone, .readMessageHistory]

/-- The place of a permission in `Permission.all`. -/
def Permission.index : Permission → Fin 18
  | .administrator => 0
  | .manageServer => 1
  | .manageChannel => 2
  | .manageRoles => 3
  | .manageMessages => 4
  | .manageWebhooks => 5
  | .manageNicknames => 6
  | .createInstantInvite => 7
  | .changeNickname => 8
  | .kickMembers => 9
  | .banMembers => 10
  | .viewChannel => 11
  | .sendMessages => 12
  | .embedLinks => 13
  | .attachFiles => 14
  | .addReactions => 15
  | .mentionEveryone => 16
  | .readMessageHistory => 17

theorem Permission.index_injective {p q : Permission} (h : p.index = q.index) : p = q := by
  cases p <;> cases q <;> first | rfl | exact absurd h (by decide)

theorem Permission.mem_all (p : Permission) : p ∈ Permission.all := by
  cases p <;> decide

instance Permission.decidableForall {P : Permission → Prop} [DecidablePred P] :
    Decidable (∀ p, P p) :=
  decidable_of_iff (∀ p ∈ Permission.all, P p) ⟨fun h p => h p p.mem_all, fun h p _ => h p⟩

instance Permission.decidableExists {P : Permission → Prop} [DecidablePred P] :
    Decidable (∃ p, P p) :=
  decidable_of_iff (∃ p ∈ Permission.all, P p)
    ⟨fun ⟨p, _, hp⟩ => ⟨p, hp⟩, fun ⟨p, hp⟩ => ⟨p, p.mem_all, hp⟩⟩

/-- The name a permission goes by in stored records and requests. -/
def Permission.name : Permission → String
  | .administrator => "ADMINISTRATOR"
  | .manageServer => "MANAGE_SERVER"
  | .manageChannel => "MANAGE_CHANNEL"
  | .manageRoles => "MANAGE_ROLES"
  | .manageMessages => "MANAGE_MESSAGES"
  | .manageWebhooks => "MANAGE_WEBHOOKS"
  | .manageNicknames => "MANAGE_NICKNAMES"
  | .createInstantInvite => "CREATE_INSTANT_INVITE"
  | .changeNickname => "CHANGE_NICKNAME"
  | .kickMembers => "KICK_MEMBERS"
  | .banMembers => "BAN_MEMBERS"
  | .viewChannel => "VIEW_CHANNEL"
  | .sendMessages => "SEND_MESSAGES"
  | .embedLinks => "EMBED_LINKS"
  | .attachFiles => "ATTACH_FILES"
  | .addReactions => "ADD_REACTIONS"
  | .mentionEveryone => "MENTION_EVERYONE"
  | .readMessageHistory => "READ_MESSAGE_HISTORY"

/-- The permission of a name, which must match to the letter. -/
def Permission.ofName? (name : String) : Option Permission :=
  Permission.all.find? (·.name == name)

theorem Permission.ofName?_name (p : Permission) : Permission.ofName? p.name = some p := by
  cases p <;> decide

/-- Whether a direct message may ever grant the permission. -/
def Permission.allowedInDm : Permission → Bool
  | .viewChannel | .sendMessages | .embedLinks | .attachFiles | .addReactions
  | .readMessageHistory => true
  | .administrator | .manageServer | .manageChannel | .manageRoles | .manageMessages
  | .manageWebhooks | .manageNicknames | .createInstantInvite | .changeNickname
  | .kickMembers | .banMembers | .mentionEveryone => false

end Guildhall
