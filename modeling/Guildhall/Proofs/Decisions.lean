-- SUMMARY: A permission is decided on as the resolved set says, and a denial gives the reason that the records show.
import Guildhall.Proofs.Resolution

/-!
# Decisions and resolved sets

`Member.resolve` and `Member.authorize` pass the same guards, each in a body of its own: direct
messages, channels of other servers, the owner, the default role. `Member.Reason` is the table of these
guards, read off the records alone. Some reason of the table applies to every case
(`Member.exists_reason`), and what the resolved set does not grant is denied for it
(`Member.Reason.authorize_eq`).
-/

namespace Guildhall

namespace Member

/-- The reason for which a permission is denied, should the member not have it. -/
inductive Reason (m : Member) (p : Permission) (everyone : Option Role) : Option Channel → Denial → Prop
  | notRecipient {c : Channel} (dm : c.kind = .dm) (stranger : m.user ∉ c.recipients) :
      Reason m p everyone (some c) .notRecipient
  | notAllowedInDm {c : Channel} (dm : c.kind = .dm) (recipient : m.user ∈ c.recipients) :
      Reason m p everyone (some c) (.notAllowedInDm p)
  | channelOutsideServer {c : Channel} (text : c.kind = .text) (outside : c.server ≠ some m.server) :
      Reason m p everyone (some c) .channelOutsideServer
  | misconfigured {channel : Option Channel} (within : m.Within channel) (owner : m.isOwner = false)
      (unusable : ∀ e, everyone = some e → e.isDefault = false ∨ e.server ≠ m.server) :
      Reason m p everyone channel .misconfigured
  | missingPermission {channel : Option Channel} (within : m.Within channel)
      (usable : m.isOwner = true ∨ ∃ e, everyone = some e ∧ e.isDefault = true ∧ e.server = m.server) :
      Reason m p everyone channel (.missingPermission p)

variable {m : Member} {p : Permission} {roles : List Role} {everyone : Option Role}
  {channel : Option Channel} {why : Denial}

theorem usableEveryone_eq_none : m.usableEveryone everyone = none ↔
    ∀ e, everyone = some e → e.isDefault = false ∨ e.server ≠ m.server := by
  simp [usableEveryone, Option.filter_eq_none_iff, imp_iff_not_or]

/-! ## The table of reasons -/

private theorem exists_reason_of_within (h : m.Within channel) :
    ∃ why, m.Reason p everyone channel why := by
  cases howner : m.isOwner with
  | true => exact ⟨_, .missingPermission h (.inl howner)⟩
  | false =>
    cases he : m.usableEveryone everyone with
    | none => exact ⟨_, .misconfigured h howner (usableEveryone_eq_none.1 he)⟩
    | some e => exact ⟨_, .missingPermission h (.inr ⟨e, usableEveryone_eq_some.1 he⟩)⟩

/-- The table leaves no case out. -/
theorem exists_reason (m : Member) (p : Permission) (everyone : Option Role)
    (channel : Option Channel) : ∃ why, m.Reason p everyone channel why := by
  cases channel with
  | none => exact exists_reason_of_within m.within_none
  | some c =>
    cases hkind : c.kind with
    | dm =>
      by_cases hrecipient : m.user ∈ c.recipients
      · exact ⟨_, .notAllowedInDm hkind hrecipient⟩
      · exact ⟨_, .notRecipient hkind hrecipient⟩
    | text =>
      by_cases hserver : c.server = some m.server
      · exact exists_reason_of_within (within_some (by simp [Channel.isDm, hkind]) hserver)
      · exact ⟨_, .channelOutsideServer hkind hserver⟩

/-- What is not granted is denied for the reason of the table. -/
theorem Reason.authorize_eq (h : m.Reason p everyone channel why)
    (hmissing : (m.resolve roles everyone channel).grants p = false) :
    m.authorize p roles everyone channel = .denied why := by
  cases h with
  | notRecipient dm stranger =>
    simp [authorize, Channel.isDm, dm, authorizeDm, Channel.isRecipient, stranger]
  | @notAllowedInDm c dm recipient =>
    have hdm : c.isDm = true := by simp [Channel.isDm, dm]
    have hrecipient : c.isRecipient m.user = true := by simp [Channel.isRecipient, recipient]
    simp only [resolve, hdm, if_true] at hmissing
    simp [authorize, hdm, authorizeDm_of_recipient hdm hrecipient, hmissing]
  | channelOutsideServer text outside => simp [authorize, Channel.isDm, text, outside]
  | misconfigured within owner unusable =>
    simp [authorize_of_within within, owner, usableEveryone_eq_none.2 unusable]
  | missingPermission within usable =>
    -- an owner would be granted the permission
    have howner : m.isOwner = false := by
      cases ho : m.isOwner with
      | false => rfl
      | true => rw [grants_of_isOwner within ho] at hmissing; cases hmissing
    obtain ⟨e, he⟩ := usable.resolve_left (by simp [howner])
    simp [authorize_of_within within, howner, usableEveryone_eq_some.2 he, hmissing]

/-- Where records do not fit together, nothing is granted at all. -/
theorem Reason.resolve_eq_empty (h : m.Reason p everyone channel why)
    (hwhy : why ∈ [.notRecipient, .channelOutsideServer, .misconfigured]) :
    m.resolve roles everyone channel = ∅ := by
  cases h with
  | notRecipient dm stranger =>
    simp [resolve, Channel.isDm, dm, resolveDm, Channel.isRecipient, stranger]
  | channelOutsideServer text outside => simp [resolve, Channel.isDm, text, outside]
  | misconfigured within owner unusable =>
    simp [resolve_of_within within, resolveInServer, owner, usableEveryone_eq_none.2 unusable]
  | notAllowedInDm | missingPermission => simp at hwhy

/-! ## Agreement -/

/-- The decision on a permission and the resolved set agree on every input: the permission is allowed
if the set has it or the administrator permission, and otherwise denied for the reason that the records
show. A stranger to a direct message, a channel of another server and a server without a usable
default role leave nothing in the set. -/
theorem authorize_agrees_resolve (m : Member) (p : Permission) (roles : List Role)
    (everyone : Option Role) (channel : Option Channel) :
    (m.authorize p roles everyone channel = .allowed ↔
      .administrator ∈ m.resolve roles everyone channel ∨ p ∈ m.resolve roles everyone channel) ∧
    (∀ why, m.authorize p roles everyone channel = .denied why ↔
      m.Reason p everyone channel why ∧
        ¬ (.administrator ∈ m.resolve roles everyone channel ∨
          p ∈ m.resolve roles everyone channel)) ∧
    (∀ why ∈ [.notRecipient, .channelOutsideServer, .misconfigured],
      m.Reason p everyone channel why → m.resolve roles everyone channel = ∅) := by
  have hallowed : m.authorize p roles everyone channel = .allowed ↔
      .administrator ∈ m.resolve roles everyone channel ∨ p ∈ m.resolve roles everyone channel := by
    rw [authorize_eq_allowed, PermissionSet.grants_iff]
  have hdenied : ∀ why, m.Reason p everyone channel why →
      ¬ (.administrator ∈ m.resolve roles everyone channel ∨ p ∈ m.resolve roles everyone channel) →
      m.authorize p roles everyone channel = .denied why := by
    intro why hreason hmissing
    refine hreason.authorize_eq ?_
    rwa [← PermissionSet.grants_iff, Bool.not_eq_true] at hmissing
  refine ⟨hallowed, fun why => ⟨fun h => ?_, fun ⟨hreason, hmissing⟩ => hdenied why hreason hmissing⟩,
    fun why hwhy hreason => hreason.resolve_eq_empty hwhy⟩
  have hmissing : ¬ (.administrator ∈ m.resolve roles everyone channel ∨
      p ∈ m.resolve roles everyone channel) := by
    rw [← hallowed, h]
    exact Decision.noConfusion
  obtain ⟨other, hother⟩ := m.exists_reason p everyone channel
  obtain rfl : other = why := Decision.denied.inj ((hdenied other hother hmissing).symm.trans h)
  exact ⟨hother, hmissing⟩

end Member

/-! ## An example -/

namespace Example

/-- The owner of server 1, to whom no role is assigned. -/
def founder : Member := ⟨9, 1, [], true⟩

/-- A text channel of server 2. -/
def abroad : Channel := ⟨80, some 2, .text, some "abroad", [], []⟩

end Example

/-- Owners need no default role, but they are nobody in the channels of another server. -/
theorem Member.authorize_agrees_resolve_founder :
    Example.founder.authorize .banMembers [] none none = .allowed ∧
      .banMembers ∈ Example.founder.resolve [] none none ∧
      Example.founder.authorize .banMembers [] none (some Example.abroad) =
        .denied .channelOutsideServer ∧
      Example.founder.Reason .banMembers none (some Example.abroad) .channelOutsideServer ∧
      Example.founder.resolve [] none (some Example.abroad) = ∅ := by
  have hallowed : Example.founder.authorize .banMembers [] none none = .allowed := by decide
  have hdenied : Example.founder.authorize .banMembers [] none (some Example.abroad) =
      .denied .channelOutsideServer := by decide
  obtain ⟨hhome, -, -⟩ := Member.authorize_agrees_resolve Example.founder .banMembers [] none none
  obtain ⟨-, hreason, hempty⟩ :=
    Member.authorize_agrees_resolve Example.founder .banMembers [] none (some Example.abroad)
  obtain ⟨houtside, -⟩ := (hreason .channelOutsideServer).1 hdenied
  have hhas : .banMembers ∈ Example.founder.resolve [] none none :=
    (hhome.1 hallowed).elim (fun hadmin => Member.mem_resolve_none_of_admin hadmin _) id
  exact ⟨hallowed, hhas, hdenied, houtside, hempty _ (by simp) houtside⟩

end Guildhall
